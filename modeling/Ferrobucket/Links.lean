import Ferrobucket.Lib.Url
import Ferrobucket.Names
import Ferrobucket.UploadHandler
/-! The links of the web interface: `UploadIsland` posts to `/ui/upload/{bucket}/{*key}`, and the
object table, the detail panel and the preview point to `/ui/download/{bucket}/{*key}`. Every one
of them pastes the bucket and the key into its URL as they are. -/
namespace Ferrobucket
open Text Posix Url PercentEncoding

/-! ### The routes -/

/-- `i32::from_str`: a sign may stand before at least one decimal digit. -/
def parseI32 (text : Str) : Option Int32 :=
  let (negative, digits) :=
    match text with
    | '-' :: rest => (true, rest)
    | '+' :: rest => (false, rest)
    | _ => (false, text)
  if digits.isEmpty || !digits.all Char.isDigit then none
  else
    let magnitude : Int := Nat.ofDigitChars 10 digits 0
    let value := if negative then -magnitude else magnitude
    if -2 ^ 31 ≤ value ∧ value < 2 ^ 31 then some (Int32.ofInt value) else none

def UploadParams.empty : UploadParams := { uploadId := none, partNumber := none, action := none }

def uploadIdField : Str := "uploadId".toList

def partNumberField : Str := "partNumber".toList

def actionField : Str := "action".toList

/-- One pair of the query: a field given twice or a part number that is no `i32` is an error, and a
name that is no field is passed over. -/
def UploadParams.read (params : UploadParams) (pair : Str × Str) : Option UploadParams :=
  if pair.1 = uploadIdField then
    if params.uploadId.isSome then none else some { params with uploadId := some pair.2 }
  else if pair.1 = partNumberField then
    if params.partNumber.isSome then none
    else (parseI32 pair.2).map fun number => { params with partNumber := some number }
  else if pair.1 = actionField then
    if params.action.isSome then none else some { params with action := some pair.2 }
  else some params

def UploadParams.fromPairs (pairs : List (Str × Str)) : Option UploadParams :=
  pairs.foldlM UploadParams.read UploadParams.empty

structure UploadTarget where
  bucket : Str
  key : Str
  params : UploadParams
  deriving DecidableEq

def uploadRoute : Str := "/ui/upload/".toList

def downloadRoute : Str := "/ui/download/".toList

/-- What `upload_handler` is called with for a URL. -/
def uploadTarget (form : FormDecoder) (url : Str) : Option UploadTarget := do
  let (bucket, key) ← capture uploadRoute (path url)
  let params ← UploadParams.fromPairs (formPairs form (query url))
  pure { bucket, key, params }

/-- What `download_handler` is called with for a URL. -/
def downloadTarget (url : Str) : Option (Str × Str) := capture downloadRoute (path url)

/-! ### The builders -/

namespace UploadIsland

def partSizeBytes : Nat := 8 * 1024 * 1024

/-- The key of a dropped file. -/
def key (pfx name : Str) : Str := if pfx.isEmpty then name else pfx ++ name

/-- `((file_size / part_size).ceil() as u32).max(1)`: the quotient by a power of two is exact,
and the cast saturates. -/
def numParts (fileSize : Nat) : Nat :=
  max (min ((fileSize + (partSizeBytes - 1)) / partSizeBytes) (2 ^ 32 - 1)) 1

def uploadUrl (bucket key query : Str) : Str :=
  uploadRoute ++ bucket ++ ['/'] ++ key ++ query

def url (bucket key : Str) : Str := uploadUrl bucket key []

def createUrl (bucket key : Str) : Str := uploadUrl bucket key "?action=create".toList

def partUrl (bucket key uploadId : Str) (partNum : Nat) : Str :=
  uploadUrl bucket key
    ("?uploadId=".toList ++ uploadId ++ "&partNumber=".toList ++ (toString partNum).toList)

def abortUrl (bucket key uploadId : Str) : Str :=
  uploadUrl bucket key ("?uploadId=".toList ++ uploadId ++ "&action=abort".toList)

def completeUrl (bucket key uploadId : Str) : Str :=
  uploadUrl bucket key ("?uploadId=".toList ++ uploadId ++ "&action=complete".toList)

/-- The URLs that one file may be posted to. -/
def urls (bucket key uploadId : Str) (fileSize : Nat) : List Str :=
  if fileSize ≤ partSizeBytes then [url bucket key]
  else
    createUrl bucket key :: abortUrl bucket key uploadId :: completeUrl bucket key uploadId ::
      (List.range' 1 (numParts fileSize)).map (partUrl bucket key uploadId)

end UploadIsland

def downloadLink (bucket key : Str) : Str := downloadRoute ++ bucket ++ ['/'] ++ key

def ObjectTable.downloadHref (bucket key : Str) : Str := downloadLink bucket key

def SlideOver.downloadHref (bucket key : Str) : Str := downloadLink bucket key

def InlinePreview.downloadUrl (bucket key : Str) : Str := downloadLink bucket key

/-! ### Bucket names and upload ids stand for themselves -/

theorem bucket_char_plain {c : Char} (member : isBucketChar c = true) :
    c.toNat < 128 ∧ c ≠ '%' ∧ c ≠ '?' ∧ c ≠ '#' := by
  have other : ∀ d, isBucketChar d = false → c ≠ d := by
    rintro d foreign rfl
    rw [foreign] at member
    cases member
  refine ⟨?_, other '%' (by decide), other '?' (by decide), other '#' (by decide)⟩
  simp only [isBucketChar, isAsciiLowercase, isAsciiDigit, Bool.or_eq_true, Bool.and_eq_true,
    decide_eq_true_eq, Char.le_def] at member
  rcases member with ((lower | digit) | rfl) | rfl
  · exact Nat.lt_of_le_of_lt (UInt32.le_iff_toNat_le.mp lower.2) (by decide)
  · exact Nat.lt_of_le_of_lt (UInt32.le_iff_toNat_le.mp digit.2) (by decide)
  · decide
  · decide

theorem bucket_verbatim {name : Str} (valid : validateBucketName name = .ok ()) : Verbatim name := by
  obtain ⟨short, _, chars, _⟩ := bucket_name_facts valid
  constructor
  · rintro rfl
    simp [utf8Len] at short
  · intro member
    exact (bucket_char_plain (chars _ member)).2.2.1 rfl
  · intro member
    exact (bucket_char_plain (chars _ member)).2.2.2 rfl
  · rw [← percent_decode_same_iff]
    apply percent_decode_ascii
    · intro c member
      exact (bucket_char_plain (chars c member)).1
    · intro member
      exact (bucket_char_plain (chars _ member)).2.1 rfl

theorem bucket_no_slash {name : Str} (valid : validateBucketName name = .ok ()) : '/' ∉ name :=
  fun member => (bucket_char ((bucket_name_facts valid).2.2.1 _ member)).1 rfl

theorem uuid_form_text {name : Str} (uuid : isUuid name = true) : isFormText name = true := by
  simp only [isUuid, Bool.and_eq_true, List.all_eq_true] at uuid
  rw [isFormText, List.all_eq_true]
  intro c member
  have own := uuid.2 c member
  have other : ∀ d : Char, (('0' ≤ d && d ≤ '9') || ('a' ≤ d && d ≤ 'f') || d = '-') = false → c ≠ d := by
    rintro d foreign rfl
    rw [foreign] at own
    cases own
  have small : c.toNat < 128 := by
    simp only [Bool.or_eq_true, Bool.and_eq_true, decide_eq_true_eq, Char.le_def] at own
    rcases own with (digit | letter) | rfl
    · exact Nat.lt_of_le_of_lt (UInt32.le_iff_toNat_le.mp digit.2) (by decide)
    · exact Nat.lt_of_le_of_lt (UInt32.le_iff_toNat_le.mp letter.2) (by decide)
    · decide
  simp [small, other '%' (by decide), other '+' (by decide), other '&' (by decide),
    other '=' (by decide), other '#' (by decide)]

theorem digits_form_text (n : Nat) : isFormText (toString n).toList = true := by
  rw [isFormText, List.all_eq_true]
  intro c member
  have digit : c.isDigit = true := by
    rw [Nat.toString_eq_ofList_toDigits, String.toList_ofList] at member
    exact Nat.isDigit_of_mem_toDigits (by omega) (le_refl 10) member
  have other : ∀ d : Char, d.isDigit = false → c ≠ d := by
    rintro d foreign rfl
    rw [foreign] at digit
    cases digit
  have small : c.toNat < 128 := by
    simp only [Char.isDigit, Bool.and_eq_true, decide_eq_true_eq] at digit
    exact Nat.lt_of_le_of_lt (UInt32.le_iff_toNat_le.mp digit.2) (by decide)
  simp [small, other '%' (by decide), other '+' (by decide), other '&' (by decide),
    other '=' (by decide), other '#' (by decide)]

theorem parse_decimal (n : Nat) :
    parseI32 (toString n).toList = if n < 2 ^ 31 then some (Int32.ofInt n) else none := by
  have digits : (toString n).toList = Nat.toDigits 10 n := by
    rw [Nat.toString_eq_ofList_toDigits, String.toList_ofList]
  have each : ∀ c ∈ Nat.toDigits 10 n, c.isDigit = true := fun c member =>
    Nat.isDigit_of_mem_toDigits (by omega) (le_refl 10) member
  have value : Nat.ofDigitChars 10 (Nat.toDigits 10 n) 0 = n :=
    Nat.ofDigitChars_toDigits (by omega) (le_refl 10)
  rw [digits]
  cases shape : Nat.toDigits 10 n with
  | nil => exact absurd shape Nat.toDigits_ne_nil
  | cons c rest =>
      rw [shape] at each value
      have first := each c List.mem_cons_self
      have minus : c ≠ '-' := by
        rintro rfl
        revert first
        decide
      have plus : c ≠ '+' := by
        rintro rfl
        revert first
        decide
      have whole : (c :: rest).all Char.isDigit = true := List.all_eq_true.mpr each
      have unsigned : parseI32 (c :: rest) =
          if -2 ^ 31 ≤ (Nat.ofDigitChars 10 (c :: rest) 0 : Int) ∧
            (Nat.ofDigitChars 10 (c :: rest) 0 : Int) < 2 ^ 31
          then some (Int32.ofInt (Nat.ofDigitChars 10 (c :: rest) 0)) else none := by
        unfold parseI32
        split
        next negative digits same =>
          split at same
          · next tail letters => exact absurd (List.cons.inj letters).1 minus
          · next tail letters => exact absurd (List.cons.inj letters).1 plus
          · cases same
            simp [whole]
      rw [unsigned, value]
      by_cases small : n < 2 ^ 31
      · rw [if_pos small, if_pos]
        omega
      · rw [if_neg small, if_neg]
        omega

/-! ### Where the links lead -/

section Upload
variable (form : FormDecoder) {bucket : Str}

theorem upload_target_iff (url : Str) (target : UploadTarget) :
    uploadTarget form url = some target ↔
      capture uploadRoute (path url) = some (target.bucket, target.key) ∧
        UploadParams.fromPairs (formPairs form (query url)) = some target.params := by
  unfold uploadTarget
  cases capture uploadRoute (path url) with
  | none => simp
  | some pair =>
      cases UploadParams.fromPairs (formPairs form (query url)) with
      | none => simp
      | some params =>
          cases target
          simp only [bind, Option.bind, pure, Option.some.injEq, UploadTarget.mk.injEq, Prod.ext_iff]
          tauto

theorem upload_route_within : Within uploadRoute := by
  unfold Within uploadRoute
  simp

theorem download_route_within : Within downloadRoute := by
  unfold Within downloadRoute
  simp

theorem upload_url_shape (bucket key more : Str) :
    UploadIsland.uploadUrl bucket key more = uploadRoute ++ (bucket ++ '/' :: (key ++ more)) := by
  simp [UploadIsland.uploadUrl]

theorem upload_captures_iff (valid : validateBucketName bucket = .ok ()) (key more : Str)
    (questioned : more = [] ∨ more.head? = some '?') :
    capture uploadRoute (path (UploadIsland.uploadUrl bucket key more)) = some (bucket, key) ↔
      Verbatim key := by
  rw [upload_url_shape]
  exact capture_link_iff upload_route_within (bucket_verbatim valid) (bucket_no_slash valid) key more
    questioned

theorem upload_within (valid : validateBucketName bucket = .ok ()) {key : Str} (verbatim : Verbatim key) :
    Within (UploadIsland.uploadUrl bucket key []) := by
  have segment := bucket_verbatim valid
  have route := upload_route_within
  simp [Within, UploadIsland.uploadUrl, route.1, route.2, segment.question, segment.hash,
    verbatim.question, verbatim.hash]

/-- A link without parameters. -/
theorem plain_url_iff (valid : validateBucketName bucket = .ok ()) (key : Str) :
    uploadTarget form (UploadIsland.url bucket key) = some ⟨bucket, key, .empty⟩ ↔ Verbatim key := by
  rw [upload_target_iff, UploadIsland.url, upload_captures_iff valid key [] (.inl rfl)]
  constructor
  · exact And.left
  · intro verbatim
    refine ⟨verbatim, ?_⟩
    rw [query_none (upload_within valid verbatim)]
    rfl

/-- A link with parameters that mean themselves. -/
theorem query_url_iff (valid : validateBucketName bucket = .ok ()) (key : Str)
    {pairs : List (Str × Str)} (nonempty : pairs ≠ [])
    (plain : ∀ pair ∈ pairs, isFormText pair.1 = true ∧ isFormText pair.2 = true)
    (params : UploadParams) :
    uploadTarget form (UploadIsland.uploadUrl bucket key ('?' :: joinPairs pairs)) =
        some ⟨bucket, key, params⟩ ↔
      Verbatim key ∧ UploadParams.fromPairs pairs = some params := by
  rw [upload_target_iff, upload_captures_iff valid key _ (.inr rfl)]
  apply and_congr_right
  intro verbatim
  have clear := join_pairs_hash plain
  have parsed : query (UploadIsland.uploadUrl bucket key ('?' :: joinPairs pairs)) = joinPairs pairs := by
    have front := query_append (upload_within valid verbatim) clear
    simpa only [UploadIsland.uploadUrl, List.append_assoc, List.append_nil] using front
  rw [parsed, form_pairs_join form nonempty plain]

theorem field_form_text {field : Str}
    (known : field ∈ [uploadIdField, partNumberField, actionField]) : isFormText field = true := by
  simp only [List.mem_cons, List.not_mem_nil, or_false] at known
  rcases known with rfl | rfl | rfl
  · decide
  · decide
  · decide

theorem read_upload_id (params : UploadParams) (fresh : params.uploadId = none) (uploadId : Str) :
    params.read (uploadIdField, uploadId) = some { params with uploadId := some uploadId } := by
  rw [UploadParams.read, if_pos rfl, if_neg (by simp [fresh])]

theorem read_part_number (params : UploadParams) (fresh : params.partNumber = none) (number : Nat) :
    params.read (partNumberField, (toString number).toList) =
      if number < 2 ^ 31 then some { params with partNumber := some (Int32.ofInt number) } else none := by
  have first : partNumberField ≠ uploadIdField := by decide
  rw [UploadParams.read, if_neg first, if_pos rfl, if_neg (by simp [fresh]), parse_decimal]
  split
  · rfl
  · rfl

theorem read_action (params : UploadParams) (fresh : params.action = none) (action : Str) :
    params.read (actionField, action) = some { params with action := some action } := by
  have first : actionField ≠ uploadIdField := by decide
  have second : actionField ≠ partNumberField := by decide
  rw [UploadParams.read, if_neg first, if_neg second, if_pos rfl, if_neg (by simp [fresh])]

/-- A link whose only parameter is an action. -/
theorem action_url_iff (valid : validateBucketName bucket = .ok ()) (key : Str) {action : Str}
    (plain : isFormText action = true) :
    uploadTarget form (UploadIsland.uploadUrl bucket key ("?action=".toList ++ action)) =
        some ⟨bucket, key, ⟨none, none, some action⟩⟩ ↔ Verbatim key := by
  have shape : "?action=".toList ++ action = '?' :: joinPairs [(actionField, action)] := by
    rw [show "?action=".toList = '?' :: (actionField ++ ['=']) by decide]
    simp [joinPairs, List.intercalate]
  have name := field_form_text (show actionField ∈ _ by simp)
  have read := read_action .empty rfl action
  rw [shape, query_url_iff form valid key (by simp) (by simp [name, plain])]
  simp only [UploadParams.fromPairs, List.foldlM_cons, List.foldlM_nil, read, Option.bind_eq_bind,
    Option.bind_some]
  exact and_iff_left rfl

/-- A link that names the upload and an action on it. -/
theorem upload_action_url_iff (valid : validateBucketName bucket = .ok ()) (key : Str)
    {uploadId action : Str} (uuid : isUuid uploadId = true) (plain : isFormText action = true) :
    uploadTarget form (UploadIsland.uploadUrl bucket key
        ("?uploadId=".toList ++ uploadId ++ ("&action=".toList ++ action))) =
        some ⟨bucket, key, ⟨some uploadId, none, some action⟩⟩ ↔ Verbatim key := by
  have shape : "?uploadId=".toList ++ uploadId ++ ("&action=".toList ++ action) =
      '?' :: joinPairs [(uploadIdField, uploadId), (actionField, action)] := by
    rw [show "?uploadId=".toList = '?' :: (uploadIdField ++ ['=']) by decide,
      show "&action=".toList = '&' :: (actionField ++ ['=']) by decide]
    simp [joinPairs, List.intercalate]
  have first := field_form_text (show uploadIdField ∈ _ by simp)
  have second := field_form_text (show actionField ∈ _ by simp)
  have id := uuid_form_text uuid
  have readId := read_upload_id .empty rfl uploadId
  have readAction := read_action { UploadParams.empty with uploadId := some uploadId } rfl action
  rw [shape, query_url_iff form valid key (by simp) (by simp [first, second, id, plain])]
  simp only [UploadParams.fromPairs, List.foldlM_cons, List.foldlM_nil, readId, readAction,
    Option.bind_eq_bind, Option.bind_some]
  exact and_iff_left rfl

/-- A link that names the upload and one of its parts. A number that is no `i32` leads nowhere. -/
theorem part_url_iff (valid : validateBucketName bucket = .ok ()) (key : Str) {uploadId : Str}
    (uuid : isUuid uploadId = true) (number : Nat) (value : Int32) :
    uploadTarget form (UploadIsland.partUrl bucket key uploadId number) =
        some ⟨bucket, key, ⟨some uploadId, some value, none⟩⟩ ↔
      Verbatim key ∧ number < 2 ^ 31 ∧ value = Int32.ofInt number := by
  have shape : "?uploadId=".toList ++ uploadId ++ "&partNumber=".toList ++ (toString number).toList =
      '?' :: joinPairs [(uploadIdField, uploadId), (partNumberField, (toString number).toList)] := by
    rw [show "?uploadId=".toList = '?' :: (uploadIdField ++ ['=']) by decide,
      show "&partNumber=".toList = '&' :: (partNumberField ++ ['=']) by decide]
    simp [joinPairs, List.intercalate]
  have first := field_form_text (show uploadIdField ∈ _ by simp)
  have second := field_form_text (show partNumberField ∈ _ by simp)
  have id := uuid_form_text uuid
  have digits := digits_form_text number
  have plain : ∀ pair ∈ [(uploadIdField, uploadId), (partNumberField, (toString number).toList)],
      isFormText pair.1 = true ∧ isFormText pair.2 = true := by
    simp only [List.mem_cons, List.not_mem_nil, or_false, forall_eq_or_imp, forall_eq]
    exact ⟨⟨first, id⟩, second, digits⟩
  have readId := read_upload_id .empty rfl uploadId
  have readNumber := read_part_number { UploadParams.empty with uploadId := some uploadId } rfl number
  rw [UploadIsland.partUrl, shape, query_url_iff form valid key (by simp) plain]
  apply and_congr_right
  intro _
  rw [UploadParams.fromPairs, List.foldlM_cons, readId, Option.bind_eq_bind, Option.bind_some,
    List.foldlM_cons, readNumber]
  by_cases small : number < 2 ^ 31
  · rw [if_pos small, Option.bind_eq_bind, Option.bind_some, List.foldlM_nil]
    constructor
    · intro same
      cases same
      exact ⟨small, rfl⟩
    · rintro ⟨_, rfl⟩
      rfl
  · rw [if_neg small]
    constructor
    · intro same
      cases same
    · rintro ⟨less, _⟩
      exact absurd less small

end Upload

theorem int32_small {n : Nat} (small : n < 2 ^ 31) : (Int32.ofInt n).toInt = n :=
  Int32.toInt_ofInt_of_le (by omega) (by omega)

theorem num_parts_small {fileSize : Nat} (small : fileSize ≤ UploadIsland.partSizeBytes) :
    UploadIsland.numParts fileSize = 1 := by
  unfold UploadIsland.numParts UploadIsland.partSizeBytes at *
  omega

theorem num_parts_positive (fileSize : Nat) : 1 ≤ UploadIsland.numParts fileSize := by
  unfold UploadIsland.numParts
  omega

/-- Every URL that `UploadIsland` may post one file to leads to the file's key, with the
parameters that its request is meant to have. -/
structure UploadLinksReach (form : FormDecoder) (bucket key uploadId : Str) (fileSize : Nat) : Prop where
  single : fileSize ≤ UploadIsland.partSizeBytes →
    uploadTarget form (UploadIsland.url bucket key) = some ⟨bucket, key, ⟨none, none, none⟩⟩
  create : UploadIsland.partSizeBytes < fileSize →
    uploadTarget form (UploadIsland.createUrl bucket key) =
      some ⟨bucket, key, ⟨none, none, some "create".toList⟩⟩
  part : UploadIsland.partSizeBytes < fileSize →
    ∀ number, 1 ≤ number → number ≤ UploadIsland.numParts fileSize →
      ∃ value : Int32, value.toInt = number ∧
        uploadTarget form (UploadIsland.partUrl bucket key uploadId number) =
          some ⟨bucket, key, ⟨some uploadId, some value, none⟩⟩
  abort : UploadIsland.partSizeBytes < fileSize →
    uploadTarget form (UploadIsland.abortUrl bucket key uploadId) =
      some ⟨bucket, key, ⟨some uploadId, none, some "abort".toList⟩⟩
  complete : UploadIsland.partSizeBytes < fileSize →
    uploadTarget form (UploadIsland.completeUrl bucket key uploadId) =
      some ⟨bucket, key, ⟨some uploadId, none, some "complete".toList⟩⟩

theorem upload_links_reach_iff (form : FormDecoder) {bucket : Str}
    (valid : validateBucketName bucket = .ok ()) (key : Str) {uploadId : Str}
    (uuid : isUuid uploadId = true) (fileSize : Nat) :
    UploadLinksReach form bucket key uploadId fileSize ↔
      Verbatim key ∧ UploadIsland.numParts fileSize < 2 ^ 31 := by
  have single := plain_url_iff form valid key
  have create := action_url_iff form valid key
    (show isFormText "create".toList = true by decide)
  have abort := upload_action_url_iff form valid key uuid
    (show isFormText "abort".toList = true by decide)
  have complete := upload_action_url_iff form valid key uuid
    (show isFormText "complete".toList = true by decide)
  constructor
  · intro reach
    by_cases small : fileSize ≤ UploadIsland.partSizeBytes
    · refine ⟨single.mp (reach.single small), ?_⟩
      rw [num_parts_small small]
      decide
    · have large := not_le.mp small
      obtain ⟨value, number, last⟩ := reach.part large _ (num_parts_positive fileSize) (le_refl _)
      exact ⟨((part_url_iff form valid key uuid _ value).mp last).1,
        ((part_url_iff form valid key uuid _ value).mp last).2.1⟩
  · rintro ⟨verbatim, count⟩
    refine ⟨fun _ => single.mpr verbatim, fun _ => create.mpr verbatim, ?_,
      fun _ => abort.mpr verbatim, fun _ => complete.mpr verbatim⟩
    intro large number _ within
    have small := Nat.lt_of_le_of_lt within count
    exact ⟨Int32.ofInt number, int32_small small,
      (part_url_iff form valid key uuid number _).mpr ⟨verbatim, small, rfl⟩⟩

/-! ### Downloads, and different files -/

/-- Every download link of an object leads to it. -/
structure DownloadLinksReach (bucket key : Str) : Prop where
  table : downloadTarget (ObjectTable.downloadHref bucket key) = some (bucket, key)
  panel : downloadTarget (SlideOver.downloadHref bucket key) = some (bucket, key)
  preview : downloadTarget (InlinePreview.downloadUrl bucket key) = some (bucket, key)

theorem download_link_iff {bucket : Str} (valid : validateBucketName bucket = .ok ()) (key : Str) :
    downloadTarget (downloadLink bucket key) = some (bucket, key) ↔ Verbatim key := by
  have captured := capture_link_iff download_route_within (bucket_verbatim valid)
    (bucket_no_slash valid) key [] (.inl rfl)
  have shape : downloadLink bucket key = downloadRoute ++ (bucket ++ '/' :: (key ++ [])) := by
    simp [downloadLink]
  rw [downloadTarget, shape]
  exact captured

theorem download_links_reach_iff {bucket : Str} (valid : validateBucketName bucket = .ok ())
    (key : Str) : DownloadLinksReach bucket key ↔ Verbatim key := by
  have link := download_link_iff valid key
  constructor
  · intro reach
    exact link.mp reach.table
  · intro verbatim
    exact ⟨link.mpr verbatim, link.mpr verbatim, link.mpr verbatim⟩

/-- The bucket and the key that a post to a URL is about. -/
def addressed (url : Str) : Option (Str × Str) := capture uploadRoute (path url)

/-- All URLs of one file address its key, if they may hold it as it is. -/
theorem urls_address {bucket : Str} (valid : validateBucketName bucket = .ok ()) {key : Str}
    (verbatim : Verbatim key) {uploadId url : Str} {fileSize : Nat}
    (posted : url ∈ UploadIsland.urls bucket key uploadId fileSize) :
    addressed url = some (bucket, key) := by
  have leads : ∀ more, more = [] ∨ more.head? = some '?' →
      addressed (UploadIsland.uploadUrl bucket key more) = some (bucket, key) :=
    fun more questioned => (upload_captures_iff valid key more questioned).mpr verbatim
  unfold UploadIsland.urls at posted
  split at posted
  · rw [List.mem_singleton] at posted
    rw [posted]
    exact leads [] (.inl rfl)
  · simp only [List.mem_cons, List.mem_map] at posted
    rcases posted with rfl | rfl | rfl | ⟨number, _, rfl⟩
    · exact leads _ (.inr rfl)
    · exact leads _ (.inr rfl)
    · exact leads _ (.inr rfl)
    · exact leads _ (.inr rfl)

theorem island_key_injective (pfx : Str) : Function.Injective (UploadIsland.key pfx) := by
  intro left right same
  unfold UploadIsland.key at same
  split at same
  · exact same
  · exact List.append_cancel_left same

/-- The links of a file and of a stored object lead to them with the intended parameters exactly
when the keys may stand in a URL as they are and the parts can be numbered by an `i32`; two such
files of different names in one folder never post to the same object. -/
theorem links_address_key_iff (form : FormDecoder) {bucket : Str}
    (valid : validateBucketName bucket = .ok ()) (pfx name stored : Str) {uploadId : Str}
    (uuid : isUuid uploadId = true) (fileSize : Nat) :
    (UploadLinksReach form bucket (UploadIsland.key pfx name) uploadId fileSize ∧
        DownloadLinksReach bucket stored ↔
      (Verbatim (UploadIsland.key pfx name) ∧ UploadIsland.numParts fileSize < 2 ^ 31) ∧
        Verbatim stored) ∧
    ∀ other otherId otherSize, other ≠ name →
      Verbatim (UploadIsland.key pfx name) → Verbatim (UploadIsland.key pfx other) →
      ∀ first ∈ UploadIsland.urls bucket (UploadIsland.key pfx name) uploadId fileSize,
      ∀ second ∈ UploadIsland.urls bucket (UploadIsland.key pfx other) otherId otherSize,
        addressed first ≠ addressed second := by
  constructor
  · rw [upload_links_reach_iff form valid _ uuid fileSize, download_links_reach_iff valid stored]
  · intro other otherId otherSize different verbatim otherVerbatim first posted second otherPosted same
    rw [urls_address valid verbatim posted, urls_address valid otherVerbatim otherPosted] at same
    have keys := congrArg Prod.snd (Option.some.inj same)
    exact different (island_key_injective pfx keys).symm

/-- A form decoder that gives nothing for bytes that are not UTF-8. -/
def Reference.form : FormDecoder where
  lossy bytes := (fromUtf8 bytes).getD []
  lossless text := by rw [fromUtf8_utf8, Option.getD_some]

theorem links_address_key_iff_photos :
    UploadLinksReach Reference.form "photos".toList "2024/a b.txt".toList
        "00000000-0000-4000-8000-000000000000".toList 20000000 ∧
      DownloadLinksReach "photos".toList "2024/a b.txt".toList :=
  (links_address_key_iff Reference.form (by decide) "2024/".toList "a b.txt".toList
    "2024/a b.txt".toList (by decide) 20000000).1.mpr
      ⟨⟨by decide +kernel, by decide⟩, by decide +kernel⟩

/-- What stands behind a `?` in a name never reaches the server: two files become one object, and
the download link of one points elsewhere. -/
theorem questions_collide :
    validateBucketName "photos".toList = .ok () ∧
      addressed (UploadIsland.url "photos".toList (UploadIsland.key [] "a?x".toList)) =
        some ("photos".toList, "a".toList) ∧
      addressed (UploadIsland.url "photos".toList (UploadIsland.key [] "a?y".toList)) =
        some ("photos".toList, "a".toList) ∧
      downloadTarget (ObjectTable.downloadHref "photos".toList "a?x".toList) =
        some ("photos".toList, "a".toList) := by
  decide +kernel

end Ferrobucket
