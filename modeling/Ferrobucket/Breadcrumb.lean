import Mathlib.Data.List.DropRight
import Ferrobucket.Lib.Segments
import Ferrobucket.Pagination
import Ferrobucket.QueryLinks
/-! The breadcrumb of a prefix against the folders that a listing leads through on the way to
it. The component splits at slashes and drops empty segments; a listing with the delimiter
`/` does not drop them. -/
namespace Ferrobucket
open Text Segments

/-! ### The component -/

namespace Breadcrumb

def segments (pfx : Str) : List Str :=
  if pfx.isEmpty then []
  else ((pfx.rdropWhile (· = '/')).splitOn '/').filter fun s => !s.isEmpty

/-- The prefix that the segment at `i` would lead to. -/
def segmentPrefix (pfx : Str) (i : Nat) : Str :=
  ['/'].intercalate ((segments pfx).take (i + 1)) ++ ['/']

/-- Each segment as it is shown, with the prefix it links to; the last is no link. -/
def crumbs (pfx : Str) : List (Str × Option Str) :=
  (segments pfx).mapIdx fun i seg =>
    (seg, if i = (segments pfx).length - 1 then none else some (segmentPrefix pfx i))

def targets (pfx : Str) : List Str := (crumbs pfx).filterMap Prod.snd

end Breadcrumb

/-! ### The way down -/

/-- The common prefixes that listings with the delimiter `/` report for a key, from the top of
the bucket on, each listing with the one before it as its prefix. -/
inductive WayDown (key : Str) : Str → Prop
  | top {label : Str} (reported : collapsedPrefix [] (some ['/']) key = some label) : WayDown key label
  | deeper {folder label : Str} (above : WayDown key folder)
      (reported : collapsedPrefix folder (some ['/']) key = some label) : WayDown key label

/-- The links of the breadcrumb lead to ancestors of the prefix, one deeper than the other, and
to every folder on the way down to it. -/
structure LeadsToAncestors (pfx : Str) : Prop where
  ancestors : ∀ target ∈ Breadcrumb.targets pfx,
    target <+: pfx ∧ target ≠ pfx ∧ ∃ front, target = front ++ ['/']
  deeper : (Breadcrumb.targets pfx).Pairwise fun first second => first.length < second.length
  complete : ∀ key folder, pfx <+: key → WayDown key folder → folder <+: pfx → folder ≠ pfx →
    folder ∈ Breadcrumb.targets pfx

section WayDown
variable {key folder label : Str}

theorem collapsed_folder (front : Str) {segment : Str} (clear : '/' ∉ segment) (back : Str) :
    collapsedPrefix front (some ['/']) (front ++ segment ++ '/' :: back) =
      some (front ++ segment ++ ['/']) := by
  have first : Lexical.UpToFirst ['/'] (segment ++ '/' :: back) (segment ++ ['/']) := by
    refine ⟨⟨back, by simp⟩, List.suffix_append _ _, ?_⟩
    rintro shorter starts ⟨before, rfl⟩
    by_contra less
    -- A shorter part with a slash would have it inside the segment.
    have inside : before ++ ['/'] <+: segment := by
      apply List.prefix_of_prefix_length_le starts (List.prefix_append _ _)
      simp only [List.length_append, List.length_singleton] at less ⊢
      omega
    exact clear (inside.subset (List.mem_append_right _ List.mem_cons_self))
  rw [collapsed_eq, List.append_assoc, List.drop_left, Option.bind_some,
    (Lexical.upTo_iff _ _ _).mpr first, Option.map_some, List.append_assoc]

theorem collapsed_ends (inside : folder <+: key)
    (reported : collapsedPrefix folder (some ['/']) key = some label) :
    label <+: key ∧ ∃ front, label = front ++ ['/'] := by
  obtain ⟨back, rfl⟩ := inside
  rw [collapsed_eq, List.drop_left, Option.bind_some] at reported
  obtain ⟨segment, found, rfl⟩ := Option.map_eq_some_iff.mp reported
  have first := Lexical.upTo_first found
  obtain ⟨before, rfl⟩ := first.ends
  exact ⟨(List.prefix_append_right_inj _).mpr first.starts, folder ++ before, (List.append_assoc ..).symm⟩

/-- The way down to a key goes through all its initial parts that end in a slash. -/
theorem way_down_iff : WayDown key folder ↔ folder <+: key ∧ ∃ front, folder = front ++ ['/'] := by
  constructor
  · intro way
    induction way with
    | top reported => exact collapsed_ends List.nil_prefix reported
    | deeper _ reported above => exact collapsed_ends above.1 reported
  · intro initial
    obtain ⟨front, nonempty, inside, rfl⟩ := (initial_ended_iff key folder).mp initial
    clear initial
    induction front using List.reverseRecOn with
    | nil => exact absurd rfl nonempty
    | append_singleton front segment ih =>
        obtain ⟨more, whole⟩ := inside
        have clear : '/' ∉ segment := ended_clear key segment (by
          rw [← whole]
          exact List.mem_append_left _ (List.mem_append_right _ List.mem_cons_self))
        have parts : key = terminated '/' front ++ segment ++ '/' :: (terminated '/' more ++ rest '/' key) := by
          conv_lhs => rw [← text_parts '/' key, ← whole]
          simp [terminated]
        have reported := collapsed_folder (terminated '/' front) clear (terminated '/' more ++ rest '/' key)
        rw [← parts, ← terminated_snoc] at reported
        by_cases empty : front = []
        · subst empty
          exact .top reported
        · exact .deeper (ih empty ⟨segment :: more, by simpa using whole⟩) reported

end WayDown

/-! ### What the links are -/

section Targets
variable (pfx : Str)

/-- Trimming slashes at the end makes no difference when empty segments are dropped. -/
theorem segments_eq : Breadcrumb.segments pfx =
    (ended '/' pfx).filter (fun s => !s.isEmpty) ++ [rest '/' pfx].filter fun s => !s.isEmpty := by
  have trimmed : ((pfx.rdropWhile (· = '/')).splitOn '/').filter (fun s => !s.isEmpty) =
      (pfx.splitOn '/').filter fun s => !s.isEmpty := by
    induction pfx using List.reverseRecOn with
    | nil => rfl
    | append_singleton front c ih =>
        by_cases slash : c = '/'
        · subst slash
          rw [List.rdropWhile_concat_pos _ _ _ (by simp), ih, List.splitOn_append_cons_self]
          simp
        · rw [List.rdropWhile_concat_neg _ _ _ (by simpa using slash)]
  unfold Breadcrumb.segments
  rw [← List.filter_append, ← split_parts]
  split
  · next empty =>
      obtain rfl := List.isEmpty_iff.mp empty
      rfl
  · exact trimmed

theorem segments_clear : ∀ segment ∈ Breadcrumb.segments pfx, '/' ∉ segment ∧ segment ≠ [] := by
  intro segment member
  rw [segments_eq, ← List.filter_append, ← split_parts] at member
  obtain ⟨piece, kept⟩ := List.mem_filter.mp member
  refine ⟨fun inside => (mem_splitOn piece inside).2 rfl, ?_⟩
  simpa using kept

/-- The links are those of the segments that have another behind them. -/
theorem targets_eq : Breadcrumb.targets pfx =
    (List.range ((Breadcrumb.segments pfx).length - 1)).map fun i =>
      terminated '/' ((Breadcrumb.segments pfx).take (i + 1)) := by
  have linked : ∀ (parts : List Str) (link : Nat → Str),
      (parts.mapIdx fun i seg => (seg, if i = parts.length - 1 then none else some (link i))).filterMap Prod.snd =
        (List.range (parts.length - 1)).map link := by
    intro parts link
    cases parts using List.reverseRecOn with
    | nil => rfl
    | append_singleton front last =>
        have same : (front.mapIdx fun i seg => (seg, if i = front.length then none else some (link i))) =
            front.mapIdx fun i seg => (seg, some (link i)) := by
          apply List.ext_getElem
          · simp
          · intro i short _
            have other : i ≠ front.length := by
              simp only [List.length_mapIdx] at short
              omega
            simp [other]
        have plain : (front.mapIdx fun i seg => (seg, some (link i))).filterMap Prod.snd =
            (List.range front.length).map link := by
          have shown : (front.mapIdx fun i seg => (seg, some (link i))).map Prod.snd =
              ((List.range front.length).map link).map some := by
            apply List.ext_getElem
            · simp
            · intro i _ _
              simp
          have all := congrArg (List.filterMap id) shown
          simpa [List.filterMap_map, Function.comp_def] using all
        simp only [List.length_append, List.length_singleton, Nat.add_sub_cancel, List.mapIdx_append]
        rw [same, List.filterMap_append, plain]
        simp
  unfold Breadcrumb.targets Breadcrumb.crumbs
  rw [linked]
  apply List.map_congr_left
  intro i inside
  have short := List.mem_range.mp inside
  apply intercalate_terminated
  simp only [ne_eq, List.take_eq_nil_iff, not_or]
  exact ⟨Nat.succ_ne_zero i, fun none => by rw [none] at short; cases short⟩

variable {pfx}

/-- The links lead to all but the whole of the segments from the first on. -/
theorem mem_targets {target : Str} : target ∈ Breadcrumb.targets pfx ↔
    ∃ front, front ≠ [] ∧ front <+: Breadcrumb.segments pfx ∧ front ≠ Breadcrumb.segments pfx ∧
      target = terminated '/' front := by
  rw [targets_eq]
  simp only [List.mem_map, List.mem_range]
  constructor
  · rintro ⟨i, short, rfl⟩
    refine ⟨(Breadcrumb.segments pfx).take (i + 1), ?_, List.take_prefix _ _, ?_, rfl⟩
    · simp only [ne_eq, List.take_eq_nil_iff, not_or]
      exact ⟨Nat.succ_ne_zero i, fun none => by rw [none] at short; cases short⟩
    · intro whole
      have lengths := congrArg List.length whole
      rw [List.length_take] at lengths
      omega
  · rintro ⟨front, nonempty, inside, partly, rfl⟩
    have positive := List.length_pos_iff.mpr nonempty
    have shorter : front.length < (Breadcrumb.segments pfx).length :=
      lt_of_le_of_ne inside.length_le fun same => partly (inside.eq_of_length same)
    refine ⟨front.length - 1, by omega, ?_⟩
    rw [Nat.sub_add_cancel positive, ← List.prefix_iff_eq_take.mp inside]

theorem targets_deeper : (Breadcrumb.targets pfx).Pairwise fun first second => first.length < second.length := by
  rw [targets_eq, List.pairwise_map]
  apply List.pairwise_lt_range.imp_of_mem
  intro i j _ inside less
  have short := List.mem_range.mp inside
  apply terminated_length
  · exact List.take_prefix_take_left (by omega)
  · intro same
    have lengths := congrArg List.length same
    simp only [List.length_take] at lengths
    omega

/-- No empty segment: no slash in front and no two of them side by side. -/
theorem plain_slashes_iff : (¬ ['/'] <+: pfx ∧ ¬ ['/', '/'] <:+: pfx) ↔ ∀ segment ∈ ended '/' pfx, segment ≠ [] := by
  constructor
  · rintro ⟨relative, single⟩ segment member rfl
    obtain ⟨front, back, parts⟩ := List.append_of_mem member
    have text := text_parts '/' pfx
    rw [parts, terminated_append] at text
    cases front using List.reverseRecOn with
    | nil => exact relative ⟨terminated '/' back ++ rest '/' pfx, by simpa [terminated] using text⟩
    | append_singleton front last =>
        refine single ⟨terminated '/' front ++ last, terminated '/' back ++ rest '/' pfx, ?_⟩
        conv_rhs => rw [← text]
        simp [terminated]
  · intro whole
    constructor
    · rintro ⟨more, rfl⟩
      have parts : (['/'] ++ more).splitOn '/' = [[]] ++ more.splitOn '/' :=
        List.splitOn_append_cons_self [] more
      apply whole [] _ rfl
      rw [ended, parts, List.dropLast_append_of_ne_nil (List.splitOn_ne_nil '/' more)]
      exact List.mem_append_left _ List.mem_cons_self
    · rintro ⟨front, more, rfl⟩
      have second : ('/' :: more).splitOn '/' = [[]] ++ more.splitOn '/' :=
        List.splitOn_append_cons_self [] more
      have parts : (front ++ ['/', '/'] ++ more).splitOn '/' =
          (front.splitOn '/' ++ [[]]) ++ more.splitOn '/' := by
        rw [List.append_assoc, List.append_assoc, ← second]
        exact List.splitOn_append_cons_self front ('/' :: more)
      apply whole [] _ rfl
      rw [ended, parts, List.dropLast_append_of_ne_nil (List.splitOn_ne_nil '/' more)]
      exact List.mem_append_left _ (List.mem_append_right _ List.mem_cons_self)

/-- The whole of the ended segments is the whole prefix just when nothing stands behind them. -/
theorem terminated_whole {front : List Str} (clear : ∀ segment ∈ front, '/' ∉ segment) :
    terminated '/' front = pfx ↔ front = ended '/' pfx ∧ rest '/' pfx = [] := by
  constructor
  · intro same
    have parts := split_terminated clear []
    rw [List.append_nil, same, split_parts] at parts
    obtain ⟨first, last⟩ := List.append_inj' parts rfl
    exact ⟨first.symm, List.head_eq_of_cons_eq last⟩
  · rintro ⟨rfl, none⟩
    have text := text_parts '/' pfx
    rwa [none, List.append_nil] at text

/-- Without empty segments the links are exactly the ancestors of the prefix. -/
theorem targets_ancestors (plain : ∀ segment ∈ ended '/' pfx, segment ≠ []) (folder : Str) :
    folder ∈ Breadcrumb.targets pfx ↔
      folder <+: pfx ∧ folder ≠ pfx ∧ ∃ front, folder = front ++ ['/'] := by
  have kept : (ended '/' pfx).filter (fun s => !s.isEmpty) = ended '/' pfx :=
    List.filter_eq_self.mpr fun segment member => by simpa using plain segment member
  have whole : Breadcrumb.segments pfx = ended '/' pfx ++ [rest '/' pfx].filter fun s => !s.isEmpty := by
    rw [segments_eq, kept]
  rw [mem_targets, and_left_comm, initial_ended_iff]
  constructor
  · rintro ⟨front, nonempty, inside, partly, rfl⟩
    have clear : ∀ segment ∈ front, '/' ∉ segment :=
      fun segment member => (segments_clear pfx segment (inside.subset member)).1
    have within : front <+: ended '/' pfx := by
      by_cases bare : rest '/' pfx = []
      · rwa [whole, bare, List.filter_cons_of_neg (by simp), List.filter_nil, List.append_nil] at inside
      · rw [whole, List.filter_cons_of_pos (by simpa using bare), List.filter_nil] at inside partly
        exact (List.prefix_concat_iff.mp inside).resolve_left partly
    refine ⟨?_, front, nonempty, within, rfl⟩
    intro same
    obtain ⟨rfl, bare⟩ := (terminated_whole clear).mp same
    rw [whole, bare] at partly
    exact partly (by simp)
  · rintro ⟨proper, front, nonempty, inside, rfl⟩
    refine ⟨front, nonempty, inside.trans (whole ▸ List.prefix_append _ _), ?_, rfl⟩
    intro same
    have short := inside.length_le
    rw [same, whole, List.length_append] at short
    have none : [rest '/' pfx].filter (fun s => !s.isEmpty) = [] := List.length_eq_zero_iff.mp (by omega)
    have bare : rest '/' pfx = [] := by simpa using none
    rw [none, List.append_nil] at whole
    exact proper ((terminated_whole (same ▸ fun segment member => (segments_clear pfx segment member).1)).mpr
      ⟨same.trans whole, bare⟩)

end Targets

/-- A breadcrumb that leaves no ancestor out links it by its segments. -/
theorem ancestor_linked {pfx : Str} (leads : LeadsToAncestors pfx) {front : List Str} (nonempty : front ≠ [])
    (inside : front <+: ended '/' pfx) (proper : terminated '/' front ≠ pfx) :
    front <+: Breadcrumb.segments pfx ∧ front ≠ Breadcrumb.segments pfx := by
  have initial := (initial_ended_iff pfx (terminated '/' front)).mpr ⟨front, nonempty, inside, rfl⟩
  obtain ⟨shown, _, among, partly, same⟩ := mem_targets.mp
    (leads.complete pfx _ List.prefix_rfl (way_down_iff.mpr initial) initial.1 proper)
  obtain rfl := terminated_injective (fun segment member => ended_clear pfx segment (inside.subset member))
    (fun segment member => (segments_clear pfx segment (among.subset member)).1) same
  exact ⟨among, partly⟩

/-- The breadcrumb leads to the ancestors of a prefix and to all of them exactly when the prefix
has no empty segment; the prefix of a single slash has no ancestors. -/
theorem breadcrumb_leads_iff (pfx : Str) :
    LeadsToAncestors pfx ↔ pfx = ['/'] ∨ (¬ ['/'] <+: pfx ∧ ¬ ['/', '/'] <:+: pfx) := by
  constructor
  · intro leads
    by_cases slash : pfx = ['/']
    · exact .inl slash
    · refine .inr (plain_slashes_iff.mpr ?_)
      rintro segment member rfl
      obtain ⟨front, back, parts⟩ := List.append_of_mem member
      have within : front ++ [[]] <+: ended '/' pfx := by
        rw [parts]
        exact ⟨back, by simp⟩
      -- A folder with an empty segment is never linked, so this one is the prefix itself.
      have whole : terminated '/' (front ++ [[]]) = pfx := by
        by_contra proper
        obtain ⟨among, _⟩ := ancestor_linked leads (by simp) within proper
        exact (segments_clear pfx [] (among.subset (by simp))).2 rfl
      obtain ⟨ends, bare⟩ := (terminated_whole fun segment inside =>
        ended_clear pfx segment (within.subset inside)).mp whole
      have nonempty : front ≠ [] := by
        rintro rfl
        exact slash whole.symm
      have proper : terminated '/' front ≠ pfx := by
        rw [← whole]
        exact fun same => (terminated_length (List.prefix_append _ _) (by simp)).ne (congrArg List.length same)
      -- Without its last slash it has the same segments, of which the last is no link.
      obtain ⟨among, partly⟩ := ancestor_linked leads nonempty ((List.prefix_append _ _).trans within) proper
      apply partly
      have all : front.filter (fun s => !s.isEmpty) = front :=
        List.filter_eq_self.mpr fun segment member => by
          simpa using (segments_clear pfx segment (among.subset member)).2
      rw [segments_eq, ← ends, bare, List.filter_append, all]
      simp
  · rintro (rfl | plain)
    · have none : Breadcrumb.targets ['/'] = [] := by decide
      refine ⟨?_, targets_deeper, ?_⟩
      · rw [none]
        exact nofun
      · intro key folder _ way inside proper
        obtain ⟨_, front, rfl⟩ := way_down_iff.mp way
        have short := inside.length_le
        exact absurd (inside.eq_of_length (by simp at short ⊢; omega)) proper
    · have exact' := targets_ancestors (plain_slashes_iff.mp plain)
      refine ⟨fun target member => (exact' target).mp member, targets_deeper, ?_⟩
      intro key folder _ way inside proper
      exact (exact' folder).mpr ⟨inside, proper, (way_down_iff.mp way).2⟩

/-- A key may begin with a slash; the breadcrumb then leads to a folder beside its own. -/
theorem breadcrumb_leads_aside : ¬ LeadsToAncestors "/a/b/".toList := by
  intro leads
  have linked : "a/".toList ∈ Breadcrumb.targets "/a/b/".toList := by decide
  have outside : ¬ "a/".toList <+: "/a/b/".toList := by decide
  exact outside (leads.ancestors _ linked).1

end Ferrobucket
