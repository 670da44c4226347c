import Ferrobucket.Lib.Grouping
import Ferrobucket.Listing
/-! The pages of a listing put together. The loop over the sorted keys is a grouping by
collapsed prefix; a page is a stretch of its entries; and the token of a page is the last
key of its last entry, from which the grouping can be taken up again. -/
namespace Ferrobucket
open Text Posix Grouping

def toEmitted : Entry Str Str → Emitted
  | .single key => ⟨.object key, key⟩
  | .group collapsed last => ⟨.commonPrefix collapsed, last⟩

/-- Continue emitted results with the entries of the keys to come, extending the last
common prefix where the run goes on. -/
def splice (emitted : List Emitted) : List (Entry Str Str) → List Emitted
  | .group collapsed last :: rest =>
      match emitted.getLast? with
      | some trailing =>
          if trailing.item = .commonPrefix collapsed then
            emitted.dropLast ++ ⟨.commonPrefix collapsed, last⟩ :: rest.map toEmitted
          else emitted ++ ⟨.commonPrefix collapsed, last⟩ :: rest.map toEmitted
      | none => emitted ++ ⟨.commonPrefix collapsed, last⟩ :: rest.map toEmitted
  | later => emitted ++ later.map toEmitted

theorem splice_object (emitted : List Emitted) (key : Str) (later : List (Entry Str Str)) :
    splice (emitted ++ [⟨.object key, key⟩]) later =
      emitted ++ ⟨.object key, key⟩ :: later.map toEmitted := by
  rcases later with _ | ⟨entry, rest⟩
  · simp [splice]
  · cases entry <;> simp [splice, toEmitted]

theorem splice_common (emitted : List Emitted) (collapsed key : Str)
    (later : List (Entry Str Str)) :
    splice (emitted ++ [⟨.commonPrefix collapsed, key⟩]) later =
      emitted ++ (prepend collapsed key later).map toEmitted := by
  rcases later with _ | ⟨entry, rest⟩
  · simp [splice, prepend, toEmitted]
  · cases entry with
    | single other => simp [splice, prepend, toEmitted]
    | group other last =>
        by_cases same : other = collapsed
        · subst same
          simp [splice, prepend, toEmitted]
        · have different : ¬ collapsed = other := fun equal => same equal.symm
          simp [splice, prepend, toEmitted, same, different]

theorem splice_prepend (emitted : List Emitted) (collapsed key : Str)
    (later : List (Entry Str Str)) :
    splice emitted (prepend collapsed key later) =
      match emitted.getLast? with
      | some trailing =>
          if trailing.item = .commonPrefix collapsed then
            emitted.dropLast ++ (prepend collapsed key later).map toEmitted
          else emitted ++ (prepend collapsed key later).map toEmitted
      | none => emitted ++ (prepend collapsed key later).map toEmitted := by
  have front : ∃ last rest, prepend collapsed key later = .group collapsed last :: rest := by
    rcases prepend_cases collapsed key later with fresh | ⟨last, rest, whole, same⟩
    · exact ⟨key, later, fresh⟩
    · exact ⟨last, rest, same.trans whole⟩
  obtain ⟨last, rest, front⟩ := front
  rw [front]
  rfl

theorem emit_entries (prefixStr : Str) (delimiter : Option Str) (keys : List Str)
    (emitted : List Emitted) :
    keys.foldl (emitKey prefixStr delimiter) emitted =
      splice emitted (entries (collapsedPrefix prefixStr delimiter) keys) := by
  induction keys generalizing emitted with
  | nil => simp [entries, splice]
  | cons key rest ih =>
      rw [List.foldl_cons, ih]
      unfold emitKey
      cases label : collapsedPrefix prefixStr delimiter key with
      | none =>
          rw [entries_single rest label]
          simp only []
          rw [splice_object]
          rfl
      | some collapsed =>
          rw [entries_group rest label, splice_prepend]
          cases trailing : emitted.getLast? with
          | none => simp only [splice_common]
          | some last =>
              by_cases same : last.item = .commonPrefix collapsed
              · simp only [same, if_true, splice_common]
              · simp only [same, if_false, splice_common]

theorem emit_all_entries (prefixStr : Str) (delimiter : Option Str) (keys : List Str) :
    emitAll prefixStr delimiter keys =
      (entries (collapsedPrefix prefixStr delimiter) keys).map toEmitted := by
  unfold emitAll
  rw [emit_entries]
  generalize entries (collapsedPrefix prefixStr delimiter) keys = later
  rcases later with _ | ⟨entry, rest⟩
  · rfl
  · cases entry <;> simp [splice, toEmitted]

/-! ### Collapsed prefixes -/

theorem collapsed_eq (prefixStr : Str) (delimiter : Option Str) (key : Str) :
    collapsedPrefix prefixStr delimiter key =
      (delimiter.bind fun pattern => Lexical.upTo pattern (key.drop prefixStr.length)).map
        (prefixStr ++ ·) := by
  cases delimiter with
  | none => rfl
  | some pattern =>
      simp only [collapsedPrefix, Lexical.upTo, Option.bind_some, Option.map_map]
      cases Lexical.find pattern (key.drop prefixStr.length) <;> rfl

/-- Of the keys with the prefix, those under one common prefix are an interval. -/
theorem collapsed_convex {prefixStr : Str} {delimiter : Option Str} {low middle high label : Str}
    (inMiddle : prefixStr <+: middle) (inLow : prefixStr <+: low) (inHigh : prefixStr <+: high)
    (above : low < middle) (below : middle < high)
    (first : collapsedPrefix prefixStr delimiter low = some label)
    (last : collapsedPrefix prefixStr delimiter high = some label) :
    collapsedPrefix prefixStr delimiter middle = some label := by
  obtain ⟨lowRest, rfl⟩ := inLow
  obtain ⟨middleRest, rfl⟩ := inMiddle
  obtain ⟨highRest, rfl⟩ := inHigh
  rw [collapsed_eq, List.drop_left, Option.map_eq_some_iff] at first last
  obtain ⟨segment, found, rfl⟩ := first
  obtain ⟨other, again, same⟩ := last
  obtain rfl := List.append_cancel_left same
  cases delimiter with
  | none => cases found
  | some pattern =>
      have atLow := Lexical.upTo_begins found
      have atHigh := Lexical.upTo_begins again
      have between := Lexical.prefix_between
        ((List.prefix_append_right_inj prefixStr).mpr atLow)
        ((List.prefix_append_right_inj prefixStr).mpr atHigh) above.le below.le
      have inside := (List.prefix_append_right_inj prefixStr).mp between
      have here := Lexical.upTo_of_prefix found inside
      rw [collapsed_eq, List.drop_left, Option.bind_some, here]
      rfl

/-! What the grouping says about a key, in the terms of a listing request. -/

/-- The key has the prefix and its remainder does not contain the delimiter. -/
def ListV2Req.Direct (req : ListV2Req) (key : Str) : Prop :=
  ∃ remainder, key = req.pfx.getD [] ++ remainder ∧
    ∀ delimiter, req.delimiter = some delimiter → ¬ delimiter <:+: remainder

/-- The label is the prefix with the remainder up to and including the first delimiter. -/
def ListV2Req.Collapses (req : ListV2Req) (key label : Str) : Prop :=
  ∃ remainder delimiter segment, key = req.pfx.getD [] ++ remainder ∧
    req.delimiter = some delimiter ∧ Lexical.UpToFirst delimiter remainder segment ∧
    label = req.pfx.getD [] ++ segment

theorem direct_iff (req : ListV2Req) (key : Str) :
    req.Direct key ↔
      req.pfx.getD [] <+: key ∧ collapsedPrefix (req.pfx.getD []) req.delimiter key = none := by
  constructor
  · rintro ⟨remainder, rfl, apart⟩
    refine ⟨List.prefix_append _ _, ?_⟩
    rw [collapsed_eq, List.drop_left, Option.map_eq_none_iff]
    cases delimiter : req.delimiter with
    | none => rfl
    | some pattern => exact (Lexical.upTo_none_iff pattern remainder).mpr (apart pattern delimiter)
  · rintro ⟨⟨remainder, rfl⟩, apart⟩
    refine ⟨remainder, rfl, ?_⟩
    intro pattern delimiter
    rw [collapsed_eq, List.drop_left, Option.map_eq_none_iff, delimiter] at apart
    exact (Lexical.upTo_none_iff pattern remainder).mp apart

theorem collapses_iff (req : ListV2Req) (key label : Str) :
    req.Collapses key label ↔ req.pfx.getD [] <+: key ∧
      collapsedPrefix (req.pfx.getD []) req.delimiter key = some label := by
  constructor
  · rintro ⟨remainder, pattern, segment, rfl, delimiter, first, rfl⟩
    refine ⟨List.prefix_append _ _, ?_⟩
    have found := (Lexical.upTo_iff pattern remainder segment).mpr first
    rw [collapsed_eq, List.drop_left, delimiter, Option.bind_some, found]
    rfl
  · rintro ⟨⟨remainder, rfl⟩, collapsed⟩
    rw [collapsed_eq, List.drop_left, Option.map_eq_some_iff] at collapsed
    obtain ⟨segment, found, rfl⟩ := collapsed
    obtain ⟨pattern, delimiter, upTo⟩ := Option.bind_eq_some_iff.mp found
    exact ⟨remainder, pattern, segment, rfl, delimiter,
      (Lexical.upTo_iff pattern remainder segment).mp upTo, rfl⟩

/-! ### One page -/

/-- The sorted keys that a listing is about, before any token. -/
def matching (keys : List Str) (pfx : Option Str) : List Str :=
  (keys.insertionSort (· ≤ ·)).filter fun key => startsWith key (pfx.getD [])

theorem starts_with_iff {text pattern : Str} : startsWith text pattern = true ↔ pattern <+: text := by
  simp [startsWith, List.isPrefixOf_iff_prefix]

theorem decode_encode_token (key : Str) :
    decodeContinuationToken (encodeContinuationToken key) = .ok key := by
  simp [decodeContinuationToken, encodeContinuationToken, Base64.decode_encode, fromUtf8_utf8]

theorem select_first (keys : List Str) (req : ListV2Req) (fresh : req.continuationToken = none) :
    selectKeys keys req = .ok (matching keys req.pfx) := by
  unfold selectKeys matching
  rw [fresh]
  cases req.pfx with
  | none =>
      have all : ∀ key : Str, startsWith key [] = true := fun key => by simp [startsWith]
      simp [all]
      rfl
  | some pfx => rfl

/-- Resuming keeps the keys behind the token. -/
theorem select_resumed (keys : List Str) (req : ListV2Req) (after : Str)
    (token : req.continuationToken = some (encodeContinuationToken after)) :
    selectKeys keys req = .ok ((matching keys req.pfx).filter fun key => after < key) := by
  unfold selectKeys matching
  rw [token]
  simp only [decode_encode_token]
  cases req.pfx with
  | none =>
      have all : ∀ key : Str, startsWith key [] = true := fun key => by simp [startsWith]
      simp [all]
  | some pfx =>
      rw [List.filter_comm]
      rfl

theorem matching_begins {keys : List Str} {pfx : Option Str} {key : Str}
    (member : key ∈ matching keys pfx) : pfx.getD [] <+: key := by
  have kept := (List.mem_filter.mp member).2
  exact starts_with_iff.mp kept

theorem matching_sorted {keys : List Str} (distinct : keys.Nodup) (pfx : Option Str) :
    (matching keys pfx).Pairwise (· < ·) := by
  have ascending : (keys.insertionSort (· ≤ ·)).Pairwise (· ≤ ·) := List.pairwise_insertionSort _ _
  have once : (keys.insertionSort (· ≤ ·)).Nodup :=
    (List.perm_insertionSort _ _).nodup_iff.mpr distinct
  have strict : (keys.insertionSort (· ≤ ·)).Pairwise (· < ·) :=
    (ascending.and once).imp fun both => lt_of_le_of_ne both.1 both.2
  exact strict.filter _

/-- The entries of a listing. -/
def pageEntries (req : ListV2Req) (keys : List Str) : List (Entry Str Str) :=
  entries (collapsedPrefix (req.pfx.getD []) req.delimiter) keys

theorem page_entries_resume {req : ListV2Req} {keys : List Str} (sorted : keys.Pairwise (· < ·))
    {position : Nat} {entry : Entry Str Str} (found : (pageEntries req keys)[position]? = some entry) :
    pageEntries req (keys.filter fun key => entry.last < key) =
      (pageEntries req keys).drop (position + 1) := by
  have resumed := entries_resume sorted found
  unfold pageEntries
  convert resumed

def itemOf (entry : Entry Str Str) : Item := (toEmitted entry).item

theorem last_key_of (entry : Entry Str Str) : (toEmitted entry).lastKey = entry.last := by
  cases entry <;> rfl

theorem max_keys_pos (req : ListV2Req) : 0 < effectiveMaxKeys req :=
  lt_of_lt_of_le Nat.zero_lt_one (le_max_left _ _)

theorem cap_page_eq (req : ListV2Req) (keys : List Str) :
    capPage req keys =
      { capped := ((pageEntries req keys).take (effectiveMaxKeys req)).map itemOf
        nextContinuationToken :=
          if effectiveMaxKeys req < (pageEntries req keys).length then
            ((pageEntries req keys)[effectiveMaxKeys req - 1]?).map fun entry =>
              encodeContinuationToken entry.last
          else none
        isTruncated := effectiveMaxKeys req < (pageEntries req keys).length } := by
  unfold capPage pageEntries
  simp only [emit_all_entries, List.length_map, decide_eq_true_eq, List.getElem?_map,
    Option.map_map, List.map_take, List.map_map]
  have same : (fun last : Emitted => encodeContinuationToken last.lastKey) ∘ toEmitted =
      fun entry : Entry Str Str => encodeContinuationToken entry.last := by
    funext entry
    simp [last_key_of]
  rw [same]
  rfl

end Ferrobucket
