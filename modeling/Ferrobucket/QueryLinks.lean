import Ferrobucket.Presign
/-! The query strings of the object browser. The pagination bar, the object table and the
breadcrumb each escape a prefix or a token with a function of their own and paste it behind
`prefix=` or `continuation=`. -/
namespace Ferrobucket
open Text Url PercentEncoding

/-! ### Escaping -/

/-- `urlencoding_simple` of each component, by the punctuation that it writes as it is besides
letters and digits. -/
def urlencodingWith (punctuation : List UInt8) (s : Str) : Str :=
  (utf8 s).flatMap fun b =>
    if (65 ≤ b && b ≤ 90) || (97 ≤ b && b ≤ 122) || (48 ≤ b && b ≤ 57) || punctuation.contains b then
      [Char.ofNat b.toNat]
    else ['%', (hexChar (b >>> 4).toNat).toUpper, (hexChar (b &&& 0xf).toNat).toUpper]

namespace PaginationBar

def urlencodingSimple (s : Str) : Str := urlencodingWith [45, 95, 46, 126, 47] s

def prefixField : Str := "prefix".toList

def continuationField : Str := "continuation".toList

def buildHref (baseHref pfx : Str) (token : Option Str) : Str :=
  let parts := if pfx.isEmpty then [] else [prefixField ++ '=' :: urlencodingSimple pfx]
  let parts := match token with
    | some t => if t.isEmpty then parts else parts ++ [continuationField ++ '=' :: urlencodingSimple t]
    | none => parts
  if parts.isEmpty then baseHref else baseHref ++ '?' :: ['&'].intercalate parts

end PaginationBar

def bucketsRoute : Str := "/ui/buckets/".toList

namespace ObjectTable

def urlencodingSimple (s : Str) : Str := urlencodingWith [45, 95, 46, 126, 47] s

def folderHref (bucket folder : Str) : Str :=
  bucketsRoute ++ bucket ++ '?' :: (PaginationBar.prefixField ++ '=' :: urlencodingSimple folder)

end ObjectTable

namespace Breadcrumb

def urlencodingSimple (s : Str) : Str := urlencodingWith [45, 95, 46, 126, 47] s

def segHref (bucket segmentPrefix : Str) : Str :=
  bucketsRoute ++ bucket ++ '?' :: (PaginationBar.prefixField ++ '=' :: urlencodingSimple segmentPrefix)

end Breadcrumb

/-! ### What is read of it -/

/-- An address split at its first `?`, and the pairs of its query. -/
def readAddress (form : FormDecoder) (href : Str) : Str × List (Str × Str) :=
  let (base, query) := splitFirst '?' href
  (base, formPairs form query)

namespace ObjectBrowserPage

/-- `query.read().get("prefix").unwrap_or_default()`. -/
def prefixOf (form : FormDecoder) (href : Str) : Str :=
  ((readAddress form href).2.lookup PaginationBar.prefixField).getD []

def continuationOf (form : FormDecoder) (href : Str) : Str :=
  ((readAddress form href).2.lookup PaginationBar.continuationField).getD []

end ObjectBrowserPage

/-- Unreserved characters, slashes and escapes of two upper case digits. -/
inductive Escaped : Str → Prop
  | nil : Escaped []
  | plain {c : Char} {rest : Str} (kept : isUnreserved c = true ∨ c = '/') (later : Escaped rest) :
      Escaped (c :: rest)
  | escape {high low : Char} {rest : Str} (first : high ∈ "0123456789ABCDEF".toList)
      (second : low ∈ "0123456789ABCDEF".toList) (later : Escaped rest) : Escaped ('%' :: high :: low :: rest)

theorem escaped_append {front rest : Str} (first : Escaped front) (later : Escaped rest) :
    Escaped (front ++ rest) := by
  induction first with
  | nil => exact later
  | plain kept _ ih => exact .plain kept ih
  | escape high low _ ih => exact .escape high low ih

/-! ### All three functions are one -/

/-- Byte by byte it is percent-encoding with the set of all that is not unreserved or a slash. -/
theorem urlencoding_percent (s : Str) :
    urlencodingWith [45, 95, 46, 126, 47] s = utf8PercentEncode s uriPathSet := by
  have all : ∀ n : Fin 256, (let b := UInt8.ofNat n.val
      if (65 ≤ b && b ≤ 90) || (97 ≤ b && b ≤ 122) || (48 ≤ b && b ≤ 57) ||
          [45, 95, 46, 126, 47].contains b then
        [Char.ofNat b.toNat]
      else ['%', (hexChar (b >>> 4).toNat).toUpper, (hexChar (b &&& 0xf).toNat).toUpper]) =
      ascii (encodeByte uriPathSet (UInt8.ofNat n.val)) := by decide +kernel
  unfold urlencodingWith utf8PercentEncode ascii
  rw [List.map_flatMap]
  apply List.flatMap_congr
  intro b _
  have one := all ⟨b.toNat, b.toNat_lt⟩
  simp only [UInt8.ofNat_toNat] at one
  exact one

theorem urlencoding_escaped (s : Str) : Escaped (urlencodingWith [45, 95, 46, 126, 47] s) := by
  have digit : ∀ n : Fin 16, Char.ofNat (hexDigit n.val).toNat ∈ "0123456789ABCDEF".toList := by decide
  rw [urlencoding_percent]
  unfold utf8PercentEncode
  induction utf8 s with
  | nil => exact .nil
  | cons b rest ih =>
      have bound := b.toNat_lt
      rw [List.flatMap_cons, ascii, List.map_append]
      apply escaped_append _ ih
      rcases encode_byte_cases uriPathSet b with ⟨_, shape⟩ | ⟨kept, shape⟩
      · rw [shape]
        exact .escape (digit ⟨b.toNat / 16, by omega⟩) (digit ⟨b.toNat % 16, by omega⟩) .nil
      · rw [shape]
        exact .plain ((unreserved_or_slash_iff _).mp (keeps_byte kept)) .nil

theorem urlencoding_injective : Function.Injective (urlencodingWith [45, 95, 46, 126, 47]) := by
  intro left right same
  rw [urlencoding_percent, urlencoding_percent] at same
  have read := congrArg percentDecodeStr same
  rw [percent_decode_str_encode uriPathSet (by decide), percent_decode_str_encode uriPathSet (by decide)] at read
  exact Option.some.inj read

/-! ### Reading a link back -/

theorem uri_path_set_safe : FormSafe uriPathSet := ⟨by decide, by decide, by decide⟩

section Reading
variable (form : FormDecoder)

theorem read_query {base : Str} (plain : '?' ∉ base) (query : Str) :
    readAddress form (base ++ '?' :: query) = (base, formPairs form query) := by
  rw [readAddress, splitFirst_append plain]

theorem read_bare {base : Str} (plain : '?' ∉ base) : readAddress form base = (base, []) := by
  have passed : ∀ c ∈ base, decide (c ≠ '?') = true := by
    intro c member
    rw [decide_eq_true_eq]
    rintro rfl
    exact plain member
  rw [readAddress, splitFirst, List.takeWhile_eq_self_iff.mpr passed, List.dropWhile_eq_nil_iff.mpr passed]
  rfl

/-- The pairs that a page link is meant to have. -/
def linkPairs (pfx : Str) (token : Option Str) : List (Str × Str) :=
  (if pfx.isEmpty then [] else [(PaginationBar.prefixField, pfx)]) ++
    token.toList.map fun t => (PaginationBar.continuationField, t)

theorem link_pairs_names (pfx : Str) (token : Option Str) :
    ∀ pair ∈ linkPairs pfx token, isFormText pair.1 = true := by
  have names : isFormText PaginationBar.prefixField = true ∧ isFormText PaginationBar.continuationField = true := by
    decide
  intro pair member
  rcases List.mem_append.mp member with first | second
  · split at first
    · cases first
    · obtain rfl := List.mem_singleton.mp first
      exact names.1
  · obtain ⟨t, _, rfl⟩ := List.mem_map.mp second
    exact names.2

/-- A page link is its base and, if there is anything to say, the pairs. -/
theorem build_href_eq (base pfx : Str) {token : Option Str} (real : token ≠ some []) :
    PaginationBar.buildHref base pfx token =
      if linkPairs pfx token = [] then base
      else base ++ '?' :: joinPairs ((linkPairs pfx token).map fun pair =>
        (pair.1, utf8PercentEncode pair.2 uriPathSet)) := by
  unfold PaginationBar.buildHref linkPairs joinPairs PaginationBar.urlencodingSimple
  simp only [urlencoding_percent]
  cases token with
  | none => cases pfx <;> simp
  | some t =>
      have nonempty : t ≠ [] := fun empty => real (congrArg some empty)
      cases pfx <;> simp [nonempty]

theorem read_page_link {base : Str} (plain : '?' ∉ base) (pfx : Str) {token : Option Str}
    (real : token ≠ some []) :
    readAddress form (PaginationBar.buildHref base pfx token) = (base, linkPairs pfx token) := by
  rw [build_href_eq base pfx real]
  split
  · next none => rw [read_bare form plain, none]
  · next some => rw [read_query form plain, form_pairs_encode form uri_path_set_safe some (link_pairs_names pfx token)]

theorem read_folder_link {bucket : Str} (plain : '?' ∉ bucket) (folder : Str) :
    readAddress form (bucketsRoute ++ bucket ++ '?' ::
        (PaginationBar.prefixField ++ '=' :: urlencodingWith [45, 95, 46, 126, 47] folder)) =
      (bucketsRoute ++ bucket, [(PaginationBar.prefixField, folder)]) := by
  have route : '?' ∉ bucketsRoute := by decide
  have clear : '?' ∉ bucketsRoute ++ bucket := by
    rw [List.mem_append, not_or]
    exact ⟨route, plain⟩
  have name : ∀ pair ∈ [(PaginationBar.prefixField, folder)], isFormText pair.1 = true := by
    intro pair member
    obtain rfl := List.mem_singleton.mp member
    have known : isFormText PaginationBar.prefixField = true := by decide
    exact known
  have pairs := form_pairs_encode form uri_path_set_safe (List.cons_ne_nil _ _) name
  have single : joinPairs ([(PaginationBar.prefixField, folder)].map fun pair =>
      (pair.1, utf8PercentEncode pair.2 uriPathSet)) =
        PaginationBar.prefixField ++ '=' :: utf8PercentEncode folder uriPathSet := by
    simp [joinPairs, List.intercalate]
  rw [single] at pairs
  rw [read_query form clear, urlencoding_percent, pairs]

/-- What the page shows for a link. -/
theorem link_pairs_shown (pfx : Str) (token : Option Str) :
    ((linkPairs pfx token).lookup PaginationBar.prefixField).getD [] = pfx ∧
      (linkPairs pfx token).lookup PaginationBar.continuationField = token := by
  have other : (PaginationBar.prefixField == PaginationBar.continuationField) = false := by decide
  have back : (PaginationBar.continuationField == PaginationBar.prefixField) = false := by decide
  unfold linkPairs
  cases pfx <;> cases token <;> simp [List.lookup_cons, other, back]

end Reading

/-- Every query string of the object browser is read as it was meant: the links of the
pagination bar, the folders of the object table and the segments of the breadcrumb. -/
structure QueriesRoundTrip (form : FormDecoder) : Prop where
  pages : ∀ base pfx token, '?' ∉ base → token ≠ some [] →
    readAddress form (PaginationBar.buildHref base pfx token) = (base, linkPairs pfx token)
  shown : ∀ base pfx token, '?' ∉ base → token ≠ some [] →
    ObjectBrowserPage.prefixOf form (PaginationBar.buildHref base pfx token) = pfx ∧
      ObjectBrowserPage.continuationOf form (PaginationBar.buildHref base pfx token) = token.getD []
  folders : ∀ bucket folder, validateBucketName bucket = .ok () →
    readAddress form (ObjectTable.folderHref bucket folder) =
      (bucketsRoute ++ bucket, [(PaginationBar.prefixField, folder)])
  segments : ∀ bucket segmentPrefix, validateBucketName bucket = .ok () →
    readAddress form (Breadcrumb.segHref bucket segmentPrefix) =
      (bucketsRoute ++ bucket, [(PaginationBar.prefixField, segmentPrefix)])
  escaped : ∀ s, Escaped (PaginationBar.urlencodingSimple s)
  injective : Function.Injective PaginationBar.urlencodingSimple
  copies : ∀ s, ObjectTable.urlencodingSimple s = PaginationBar.urlencodingSimple s ∧
    Breadcrumb.urlencodingSimple s = PaginationBar.urlencodingSimple s

theorem queries_round_trip (form : FormDecoder) : QueriesRoundTrip form := by
  have question : ∀ bucket, validateBucketName bucket = .ok () → '?' ∉ bucket := by
    intro bucket valid member
    have kept := bucket_unreserved valid '?' member
    have reserved : isUnreserved '?' = false := by decide
    rw [reserved] at kept
    cases kept
  constructor
  · exact fun base pfx token plain real => read_page_link form plain pfx real
  · intro base pfx token plain real
    obtain ⟨first, second⟩ := link_pairs_shown pfx token
    unfold ObjectBrowserPage.prefixOf ObjectBrowserPage.continuationOf
    rw [read_page_link form plain pfx real]
    exact ⟨first, congrArg (Option.getD · []) second⟩
  · exact fun bucket folder valid => read_folder_link form (question bucket valid) folder
  · exact fun bucket segmentPrefix valid => read_folder_link form (question bucket valid) segmentPrefix
  · exact urlencoding_escaped
  · exact urlencoding_injective
  · exact fun s => ⟨rfl, rfl⟩

end Ferrobucket
