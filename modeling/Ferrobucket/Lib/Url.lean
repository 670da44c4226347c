import Mathlib.Data.List.TakeWhile
import Ferrobucket.Lib.PercentEncoding
/-! Request targets as a server takes them apart: the fragment is dropped, the path ends at
the first `?`, a route captures one segment and the rest of the path, and the query is a list
of pairs in the `application/x-www-form-urlencoded` format. -/
namespace Url
open Text PercentEncoding

def withoutFragment (url : Str) : Str := url.takeWhile (· ≠ '#')

def path (url : Str) : Str := (withoutFragment url).takeWhile (· ≠ '?')

def query (url : Str) : Str := ((withoutFragment url).dropWhile (· ≠ '?')).drop 1

/-- What stands before the first `separator` and what stands behind it. -/
def splitFirst (separator : Char) (text : Str) : Str × Str :=
  (text.takeWhile (· ≠ separator), (text.dropWhile (· ≠ separator)).drop 1)

/-- A route that starts with fixed text and then captures one segment and all the rest. Both
are percent-decoded and neither may be empty. -/
def capture (route path : Str) : Option (Str × Str) :=
  if route.isPrefixOf path then
    let (segment, rest) := splitFirst '/' (path.drop route.length)
    if segment.isEmpty || rest.isEmpty then none
    else do
      let segment ← percentDecodeStr segment
      let rest ← percentDecodeStr rest
      pure (segment, rest)
  else none

/-- How a form decoder reads bytes that are not UTF-8 is its own business. -/
structure FormDecoder where
  lossy : Bytes → Str
  lossless : ∀ text, lossy (utf8 text) = text

variable (form : FormDecoder)

def formDecode (text : Str) : Str :=
  form.lossy (percentDecode (utf8 (text.map fun c => if c = '+' then ' ' else c)))

/-- The pairs of a query as they are written. -/
def rawPairs (query : Str) : List (Str × Str) :=
  ((query.splitOn '&').filter fun part => !part.isEmpty).map (splitFirst '=')

def formPairs (query : Str) : List (Str × Str) :=
  (rawPairs query).map fun pair => (formDecode form pair.1, formDecode form pair.2)

/-- A query from its pairs. -/
def joinPairs (pairs : List (Str × Str)) : Str :=
  ['&'].intercalate (pairs.map fun pair => pair.1 ++ '=' :: pair.2)

/-! ### Taking a target apart -/

/-- No character of the text ends a path. -/
def Within (text : Str) : Prop := '?' ∉ text ∧ '#' ∉ text

theorem path_eq (url : Str) : path url = url.takeWhile fun c => c ≠ '?' && c ≠ '#' := by
  rw [path, withoutFragment, List.takeWhile_takeWhile]
  congr
  funext c
  simp

theorem within_stops {text : Str} (within : Within text) :
    ∀ c ∈ text, (decide (c ≠ '?') && decide (c ≠ '#')) = true := by
  intro c member
  have question : c ≠ '?' := fun same => within.1 (same ▸ member)
  have hash : c ≠ '#' := fun same => within.2 (same ▸ member)
  simp [question, hash]

theorem path_append {front : Str} (within : Within front) (rest : Str) :
    path (front ++ rest) = front ++ path rest := by
  rw [path_eq, path_eq, List.takeWhile_append_of_pos (within_stops within)]

theorem path_question (rest : Str) : path ('?' :: rest) = [] := by
  simp [path_eq]

theorem path_prefix (text more : Str) (query : more = [] ∨ more.head? = some '?') :
    path (text ++ more) = path text := by
  have ended : path more = [] := by
    rcases query with rfl | first
    · rfl
    · cases more with
      | nil => cases first
      | cons c rest =>
          simp only [List.head?_cons, Option.some.injEq] at first
          rw [first, path_question]
  rw [path_eq] at ended
  rw [path_eq, path_eq, List.takeWhile_append]
  split
  · rw [ended, List.append_nil]
    next all =>
      exact ((List.takeWhile_prefix _).eq_of_length all).symm
  · rfl

theorem path_same_iff (text : Str) : path text = text ↔ Within text := by
  constructor
  · intro same
    rw [path_eq, List.takeWhile_eq_self_iff] at same
    constructor
    · intro member
      have passed := same '?' member
      simp at passed
    · intro member
      have passed := same '#' member
      simp at passed
  · intro within
    rw [path_eq, List.takeWhile_eq_self_iff]
    exact within_stops within

theorem path_length (text : Str) (cut : path text ≠ text) :
    (utf8 (path text)).length < (utf8 text).length := by
  obtain ⟨rest, whole⟩ : path text <+: text := by
    rw [path_eq]
    exact List.takeWhile_prefix _
  have nonempty : rest ≠ [] := by
    rintro rfl
    exact cut (by simpa using whole)
  have positive : 0 < (utf8 rest).length := by
    cases rest with
    | nil => exact absurd rfl nonempty
    | cons c more =>
        rw [utf8_length, utf8Len, List.map_cons, List.sum_cons]
        exact Nat.add_pos_left (Char.utf8Size_pos c) _
  have parts : utf8 text = utf8 (path text) ++ utf8 rest := by
    conv_lhs => rw [← whole]
    exact List.flatMap_append
  rw [parts, List.length_append]
  omega

theorem query_append {front : Str} (within : Within front) {rest : Str} (clear : '#' ∉ rest) :
    query (front ++ '?' :: rest) = rest := by
  have whole : withoutFragment (front ++ '?' :: rest) = front ++ '?' :: rest := by
    rw [withoutFragment, List.takeWhile_eq_self_iff]
    intro c member
    rw [decide_eq_true_eq]
    rintro rfl
    rcases List.mem_append.mp member with inside | tail
    · exact within.2 inside
    · rcases List.mem_cons.mp tail with same | inside
      · cases same
      · exact clear inside
  have passed : ∀ c ∈ front, decide (c ≠ '?') = true := by
    intro c member
    rw [decide_eq_true_eq]
    rintro rfl
    exact within.1 member
  rw [query, whole, List.dropWhile_append_of_pos passed]
  simp

theorem query_none {url : Str} (within : Within url) : query url = [] := by
  have passed : ∀ c ∈ withoutFragment url, decide (c ≠ '?') = true := by
    intro c member
    rw [decide_eq_true_eq]
    rintro rfl
    exact within.1 (List.takeWhile_subset _ member)
  rw [query, List.dropWhile_eq_nil_iff.mpr passed]
  rfl

theorem splitFirst_append {separator : Char} {front : Str} (clear : separator ∉ front) (rest : Str) :
    splitFirst separator (front ++ separator :: rest) = (front, rest) := by
  have passed : ∀ c ∈ front, decide (c ≠ separator) = true := by
    intro c member
    rw [decide_eq_true_eq]
    rintro rfl
    exact clear member
  rw [splitFirst, List.takeWhile_append_of_pos passed, List.dropWhile_append_of_pos passed]
  simp

/-! ### Links by their verbatim text -/

/-- A text that a link may hold as it is: nothing in it ends the path or reads as an escape. -/
structure Verbatim (text : Str) : Prop where
  nonempty : text ≠ []
  question : '?' ∉ text
  hash : '#' ∉ text
  unescaped : hasEscape (utf8 text) = false

theorem verbatim_iff (text : Str) :
    Verbatim text ↔ text ≠ [] ∧ '?' ∉ text ∧ '#' ∉ text ∧ hasEscape (utf8 text) = false := by
  constructor
  · intro verbatim
    exact ⟨verbatim.nonempty, verbatim.question, verbatim.hash, verbatim.unescaped⟩
  · rintro ⟨nonempty, question, hash, unescaped⟩
    exact ⟨nonempty, question, hash, unescaped⟩

instance (text : Str) : Decidable (Verbatim text) := decidable_of_iff _ (verbatim_iff text).symm

theorem Verbatim.within {text : Str} (verbatim : Verbatim text) : Within text :=
  ⟨verbatim.question, verbatim.hash⟩

/-- The decoded path of a link gives a text back exactly when the link may hold it as it is:
a cut path or an escape decodes to something shorter. -/
theorem decoded_path_iff (text : Str) :
    path text ≠ [] ∧ percentDecodeStr (path text) = some text ↔ Verbatim text := by
  constructor
  · rintro ⟨nonempty, read⟩
    have whole : path text = text := by
      by_contra cut
      have shorter := path_length text cut
      have bound := percent_decode_str_length read
      omega
    rw [whole] at nonempty read
    have within := (path_same_iff text).mp whole
    exact ⟨nonempty, within.1, within.2, (percent_decode_str_same_iff text).mp read⟩
  · intro verbatim
    rw [(path_same_iff text).mpr verbatim.within]
    exact ⟨verbatim.nonempty, (percent_decode_str_same_iff text).mpr verbatim.unescaped⟩

variable {route segment : Str}

theorem capture_append (nonempty : segment ≠ []) (clear : '/' ∉ segment) (rest : Str) :
    capture route (route ++ (segment ++ '/' :: rest)) =
      if rest.isEmpty then none
      else (percentDecodeStr segment).bind fun a => (percentDecodeStr rest).bind fun b => some (a, b) := by
  have fits : route.isPrefixOf (route ++ (segment ++ '/' :: rest)) = true := by
    rw [List.isPrefixOf_iff_prefix]
    exact List.prefix_append _ _
  rw [capture, if_pos fits, List.drop_left, splitFirst_append clear]
  simp only [List.isEmpty_eq_false_iff.mpr nonempty, Bool.false_or]
  rfl

/-- A link that pastes a text behind a route and a segment leads there exactly when the text
may stand in it as it is, whatever query follows. -/
theorem capture_link_iff (fixed : Within route) (segmented : Verbatim segment) (clear : '/' ∉ segment)
    (text more : Str) (query : more = [] ∨ more.head? = some '?') :
    capture route (path (route ++ (segment ++ '/' :: (text ++ more)))) = some (segment, text) ↔
      Verbatim text := by
  have slash : Within ['/'] := by simp [Within]
  have taken : path (route ++ (segment ++ '/' :: (text ++ more))) =
      route ++ (segment ++ '/' :: path text) := by
    rw [path_append fixed, path_append segmented.within, ← List.singleton_append, path_append slash,
      path_prefix text more query]
    rfl
  have decoded := (percent_decode_str_same_iff segment).mpr segmented.unescaped
  rw [taken, capture_append segmented.nonempty clear, decoded, ← decoded_path_iff]
  cases found : path text with
  | nil => simp
  | cons c rest =>
      cases percentDecodeStr (c :: rest) <;> simp

/-! ### Pairs by their verbatim text -/

/-- Text that means itself in a form: ASCII, without blanks for `+`, escapes and separators. -/
def isFormText (text : Str) : Bool :=
  text.all fun c => c.toNat < 128 && c ≠ '%' && c ≠ '+' && c ≠ '&' && c ≠ '=' && c ≠ '#'

theorem form_text_facts {text : Str} (plain : isFormText text = true) {c : Char} (member : c ∈ text) :
    c.toNat < 128 ∧ c ≠ '%' ∧ c ≠ '+' ∧ c ≠ '&' ∧ c ≠ '=' ∧ c ≠ '#' := by
  have passed := List.all_eq_true.mp plain c member
  simpa [and_assoc] using passed

theorem form_decode_plain {text : Str} (plain : isFormText text = true) :
    formDecode form text = text := by
  have kept : (text.map fun c => if c = '+' then ' ' else c) = text := by
    rw [List.map_congr_left (g := id)]
    · exact List.map_id text
    · intro c member
      exact if_neg (form_text_facts plain member).2.2.1
  have decoded : percentDecode (utf8 text) = utf8 text := by
    apply percent_decode_ascii
    · intro c member
      exact (form_text_facts plain member).1
    · intro member
      exact (form_text_facts plain member).2.1 rfl
  rw [formDecode, kept, decoded, form.lossless]

theorem raw_pairs_join {pairs : List (Str × Str)} (nonempty : pairs ≠ [])
    (clear : ∀ pair ∈ pairs, '&' ∉ pair.1 ∧ '=' ∉ pair.1 ∧ '&' ∉ pair.2) :
    rawPairs (joinPairs pairs) = pairs := by
  have pieces : (joinPairs pairs).splitOn '&' = pairs.map fun pair => pair.1 ++ '=' :: pair.2 := by
    apply List.splitOn_intercalate
    · intro part member
      obtain ⟨pair, inside, rfl⟩ := List.mem_map.mp member
      obtain ⟨name, _, value⟩ := clear pair inside
      simp [name, value]
    · simpa using nonempty
  have kept : ((pairs.map fun pair => pair.1 ++ '=' :: pair.2).filter fun part => !part.isEmpty) =
      pairs.map fun pair => pair.1 ++ '=' :: pair.2 := by
    rw [List.filter_eq_self]
    intro part member
    obtain ⟨pair, _, rfl⟩ := List.mem_map.mp member
    simp
  rw [rawPairs, pieces, kept, List.map_map]
  calc pairs.map (splitFirst '=' ∘ fun pair => pair.1 ++ '=' :: pair.2)
      = pairs.map id := by
        apply List.map_congr_left
        intro pair member
        exact splitFirst_append (clear pair member).2.1 pair.2
    _ = pairs := List.map_id pairs

theorem join_pairs_hash {pairs : List (Str × Str)}
    (plain : ∀ pair ∈ pairs, isFormText pair.1 = true ∧ isFormText pair.2 = true) :
    '#' ∉ joinPairs pairs := by
  induction pairs with
  | nil => simp [joinPairs]
  | cons pair rest ih =>
      obtain ⟨name, value⟩ := plain pair List.mem_cons_self
      have tail := ih fun other member => plain other (List.mem_cons_of_mem pair member)
      have first : '#' ∉ pair.1 ++ '=' :: pair.2 := by
        intro member
        rcases List.mem_append.mp member with inside | inside
        · exact (form_text_facts name inside).2.2.2.2.2 rfl
        · rcases List.mem_cons.mp inside with same | inside
          · cases same
          · exact (form_text_facts value inside).2.2.2.2.2 rfl
      cases rest with
      | nil => simpa [joinPairs] using first
      | cons next more =>
          have shape : joinPairs (pair :: next :: more) =
              (pair.1 ++ '=' :: pair.2) ++ '&' :: joinPairs (next :: more) := by
            simp [joinPairs, List.intercalate]
          rw [shape]
          simp only [List.mem_append, List.mem_cons, not_or] at first ⊢
          exact ⟨first, by decide, tail⟩

theorem form_pairs_join {pairs : List (Str × Str)} (nonempty : pairs ≠ [])
    (plain : ∀ pair ∈ pairs, isFormText pair.1 = true ∧ isFormText pair.2 = true) :
    formPairs form (joinPairs pairs) = pairs := by
  have clear : ∀ pair ∈ pairs, '&' ∉ pair.1 ∧ '=' ∉ pair.1 ∧ '&' ∉ pair.2 := by
    intro pair member
    obtain ⟨name, value⟩ := plain pair member
    exact ⟨fun inside => (form_text_facts name inside).2.2.2.1 rfl,
      fun inside => (form_text_facts name inside).2.2.2.2.1 rfl,
      fun inside => (form_text_facts value inside).2.2.2.1 rfl⟩
  rw [formPairs, raw_pairs_join nonempty clear]
  calc pairs.map (fun pair => (formDecode form pair.1, formDecode form pair.2))
      = pairs.map id := by
        apply List.map_congr_left
        intro pair member
        rw [form_decode_plain form (plain pair member).1, form_decode_plain form (plain pair member).2]
        rfl
    _ = pairs := List.map_id pairs

/-! ### Pairs by encoding their values -/

/-- A set that escapes what a form would read as something else. -/
structure FormSafe (set : AsciiSet) : Prop where
  percent : set 37 = true
  plus : set 43 = true
  ampersand : set 38 = true

theorem encoded_clear {set : AsciiSet} {b : UInt8} (other : b ≠ 37) (symbol : isAlphanumeric b = false)
    (kept : set b = true) (text : Str) : Char.ofNat b.toNat ∉ utf8PercentEncode text set := by
  intro member
  obtain ⟨byte, inside, same⟩ := List.mem_map.mp member
  have codes := congrArg Char.toNat same
  simp only [byte_char_code] at codes
  obtain rfl := UInt8.toNat_inj.mp codes
  rcases encoded_mem set (utf8 text) byte inside with percent | letter | plain
  · exact other percent
  · rw [symbol] at letter
    cases letter
  · simp [shouldPercentEncode, kept] at plain

theorem form_decode_encode {set : AsciiSet} (safe : FormSafe set) (text : Str) :
    formDecode form (utf8PercentEncode text set) = text := by
  have clear : '+' ∉ utf8PercentEncode text set := encoded_clear (b := 43) (by decide) (by decide) safe.plus text
  have kept : ((utf8PercentEncode text set).map fun c => if c = '+' then ' ' else c) =
      utf8PercentEncode text set := by
    rw [List.map_congr_left (g := id)]
    · exact List.map_id _
    · intro c member
      apply if_neg
      rintro rfl
      exact clear member
  have bytes : utf8 (utf8PercentEncode text set) = (utf8 text).flatMap (encodeByte set) :=
    utf8_ascii _ fun c member => encoded_ascii set _ c member
  rw [formDecode, kept, bytes, percent_decode_encode set safe.percent, form.lossless]

/-- A query whose values were encoded is read as it was meant. -/
theorem form_pairs_encode {set : AsciiSet} (safe : FormSafe set) {pairs : List (Str × Str)}
    (nonempty : pairs ≠ []) (plain : ∀ pair ∈ pairs, isFormText pair.1 = true) :
    formPairs form (joinPairs (pairs.map fun pair => (pair.1, utf8PercentEncode pair.2 set))) = pairs := by
  rw [formPairs, raw_pairs_join (by simpa using nonempty), List.map_map]
  · calc pairs.map _
        = pairs.map id := by
          apply List.map_congr_left
          intro pair member
          simp only [Function.comp, form_decode_plain form (plain pair member), form_decode_encode form safe]
          rfl
      _ = pairs := List.map_id pairs
  · intro pair member
    obtain ⟨own, inside, rfl⟩ := List.mem_map.mp member
    exact ⟨fun bad => (form_text_facts (plain own inside) bad).2.2.2.1 rfl,
      fun bad => (form_text_facts (plain own inside) bad).2.2.2.2.1 rfl,
      encoded_clear (b := 38) (by decide) (by decide) safe.ampersand own.2⟩

end Url
