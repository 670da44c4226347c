import Ferrobucket.Links
/-! Presigned URLs, from presign.rs with its two callers. The credential is the only part that the
code escapes, and of it only the slashes; the path goes into the URL and into the signed request
as it is. -/
namespace Ferrobucket
open Text Url PercentEncoding

/-- SHA-256 and HMAC-SHA256. -/
structure Sha where
  sha256 : Bytes → Bytes
  hmacSha256 : Bytes → Bytes → Bytes

/-! ### Timestamps -/

def daysToYmd (days : Nat) : Nat × Nat × Nat :=
  let z := days + 719468
  let era := z / 146097
  let doe := z % 146097
  let yoe := (doe - doe / 1460 + doe / 36524 - doe / 146096) / 365
  let y := yoe + era * 400
  let doy := doe - (365 * yoe + yoe / 4 - yoe / 100)
  let mp := (5 * doy + 2) / 153
  let d := doy - (153 * mp + 2) / 5 + 1
  let m := if mp < 10 then mp + 3 else mp - 9
  let y := if m ≤ 2 then y + 1 else y
  (y, m, d)

/-- A number in decimal, with zeros in front up to a width. -/
def padded (width n : Nat) : Str :=
  List.replicate (width - (toString n).toList.length) '0' ++ (toString n).toList

def formatUtcDatetime (unixSecs : Nat) : Str :=
  let (y, mo, d) := daysToYmd (unixSecs / 86400)
  let rem := unixSecs % 86400
  padded 4 y ++ padded 2 mo ++ padded 2 d ++ ['T'] ++ padded 2 (rem / 3600) ++
    padded 2 (rem % 3600 / 60) ++ padded 2 (rem % 60) ++ ['Z']

/-- The date with the time of day, and the date alone. -/
def amzTimestamps (unixSecs : Nat) : Str × Str :=
  (formatUtcDatetime unixSecs, (formatUtcDatetime unixSecs).take 8)

/-! ### The URL -/

def credentialChar (c : Char) : Str := if c = '/' then "%2F".toList else [c]

def percentEncodeCredential (s : Str) : Str := s.flatMap credentialChar

/-- The five query parameters, with the credential as it is given. -/
def amzParams (credential amzdate : Str) (expiresSecs : UInt32) : List (Str × Str) :=
  [("X-Amz-Algorithm".toList, "AWS4-HMAC-SHA256".toList), ("X-Amz-Credential".toList, credential),
    ("X-Amz-Date".toList, amzdate), ("X-Amz-Expires".toList, (toString expiresSecs.toNat).toList),
    ("X-Amz-SignedHeaders".toList, "host".toList)]

def buildCanonicalQs (credential amzdate : Str) (expiresSecs : UInt32) : Str :=
  let params := amzParams (percentEncodeCredential credential) amzdate expiresSecs
  joinPairs (params.mergeSort fun a b => decide (a.1 ≤ b.1))

/-- What is signed, line by line. -/
structure CanonicalRequest where
  method : Str
  path : Str
  query : Str
  host : Str

def CanonicalRequest.text (request : CanonicalRequest) : Str :=
  request.method ++ ['\n'] ++ request.path ++ ['\n'] ++ request.query ++ ['\n'] ++
    ("host:".toList ++ request.host ++ ['\n']) ++ ['\n'] ++ "host".toList ++ ['\n'] ++
    "UNSIGNED-PAYLOAD".toList

def hexChar (n : Nat) : Char := if n < 10 then Char.ofNat (48 + n) else Char.ofNat (87 + n)

def hexEncode (bytes : Bytes) : Str :=
  bytes.flatMap fun b => [hexChar (b.toNat / 16), hexChar (b.toNat % 16)]

structure PresignInput where
  method : Str
  host : Str
  path : Str
  expiresSecs : UInt32
  accessKey : Str
  signingKey : Str
  region : Str

namespace PresignInput
variable (sha : Sha) (input : PresignInput) (now : Nat)

def credentialScope : Str :=
  (amzTimestamps now).2 ++ ['/'] ++ input.region ++ "/s3/aws4_request".toList

def credential : Str := input.accessKey ++ ['/'] ++ input.credentialScope now

def canonicalRequest : CanonicalRequest where
  method := input.method
  path := input.path
  query := buildCanonicalQs (input.credential now) (amzTimestamps now).1 input.expiresSecs
  host := input.host

def signature : Str :=
  let stringToSign := "AWS4-HMAC-SHA256\n".toList ++ (amzTimestamps now).1 ++ ['\n'] ++
    input.credentialScope now ++ ['\n'] ++
    hexEncode (sha.sha256 (utf8 (input.canonicalRequest now).text))
  let kDate := sha.hmacSha256 (utf8 ("AWS4".toList ++ input.signingKey)) (utf8 (amzTimestamps now).2)
  let kRegion := sha.hmacSha256 kDate (utf8 input.region)
  let kService := sha.hmacSha256 kRegion (utf8 "s3".toList)
  let kSigning := sha.hmacSha256 kService (utf8 "aws4_request".toList)
  hexEncode (sha.hmacSha256 kSigning (utf8 stringToSign))

end PresignInput

def presignUrl (sha : Sha) (now : Nat) (input : PresignInput) : Str :=
  "http://".toList ++ input.host ++ input.path ++ ['?'] ++ (input.canonicalRequest now).query ++
    "&X-Amz-Signature=".toList ++ input.signature sha now

/-! ### The two callers -/

def objectPath (bucket key : Str) : Str := ['/'] ++ bucket ++ ['/'] ++ key

/-- What `presign_fn` reads of the server's state. -/
structure AppState where
  endpoint : Str
  region : Str
  accessKeyId : Option Str
  secretKey : Str

def stripPrefix (text front : Str) : Option Str :=
  if front.isPrefixOf text then some (text.drop front.length) else none

def AppState.host (state : AppState) : Str :=
  ((stripPrefix state.endpoint "https://".toList).or
    (stripPrefix state.endpoint "http://".toList)).getD state.endpoint

def presignFnInput (state : AppState) (bucket key : Str) : PresignInput where
  method := "GET".toList
  host := state.host
  path := objectPath bucket key
  expiresSecs := 900
  accessKey := state.accessKeyId.getD []
  signingKey := state.secretKey
  region := state.region

def presignFn (sha : Sha) (now : Nat) (state : AppState) (bucket key : Str) : Str :=
  presignUrl sha now (presignFnInput state bucket key)

inductive PresignVerb where
  | get
  | put
  | head
  | delete

def PresignVerb.method : PresignVerb → Str
  | .get => "GET".toList
  | .put => "PUT".toList
  | .head => "HEAD".toList
  | .delete => "DELETE".toList

structure PresignArgs where
  verb : PresignVerb
  bucket : Str
  key : Str
  endpoint : Str
  expiresIn : UInt32
  accessKey : Str
  secretKey : Str
  region : Str

def runPresignInput (args : PresignArgs) : PresignInput where
  method := args.verb.method
  host := args.endpoint
  path := objectPath args.bucket args.key
  expiresSecs := args.expiresIn
  accessKey := args.accessKey
  signingKey := args.secretKey
  region := args.region

def runPresign (sha : Sha) (now : Nat) (args : PresignArgs) : Str :=
  presignUrl sha now (runPresignInput args)

/-! ### What a verifier makes of a URL -/

/-- The bytes that RFC 3986 reserves. -/
def uriSet : AsciiSet :=
  fun b => !(isAlphanumeric b || b = 45 || b = 46 || b = 95 || b = 126)

def uriPathSet : AsciiSet := fun b => b ≠ 47 && uriSet b

def isUnreserved (c : Char) : Bool := keeps uriSet c

def uriEncode (text : Str) : Str := utf8PercentEncode text uriSet

def uriEncodePath (path : Str) : Str := utf8PercentEncode path uriPathSet

def decodedPairs (query : Str) : Option (List (Str × Str)) :=
  (rawPairs query).mapM fun pair => do
    let name ← percentDecodeStr pair.1
    let value ← percentDecodeStr pair.2
    pure (name, value)

/-- The query of the canonical request that a verifier computes from the decoded pairs. -/
def canonicalQuery (pairs : List (Str × Str)) : Str :=
  joinPairs (pairs.map fun pair => (uriEncode pair.1, uriEncode pair.2))

/-- A URL stands for an object: its path decodes to the object's, its query to the parameters and
the signature, and what was signed is what a verifier computes from both. -/
structure Denotes (host bucket key : Str) (params : List (Str × Str)) (signature : Str)
    (request : CanonicalRequest) (url : Str) : Prop where
  decoded : ∃ rest, url = "http://".toList ++ host ++ rest ∧
    '#' ∉ (splitFirst '?' rest).1 ∧
    percentDecodeStr (splitFirst '?' rest).1 = some (objectPath bucket key) ∧
    decodedPairs (splitFirst '?' rest).2 = some (params ++ [("X-Amz-Signature".toList, signature)])
  canonicalPath : request.path = uriEncodePath (objectPath bucket key)
  canonicalQuery : request.query = canonicalQuery params

/-- The URL of a presigned request stands for an object. -/
def PresignInput.Reaches (sha : Sha) (now : Nat) (input : PresignInput) (bucket key url : Str) : Prop :=
  Denotes input.host bucket key
    (amzParams (input.credential now) (amzTimestamps now).1 input.expiresSecs)
    (input.signature sha now) (input.canonicalRequest now) url

/-! ### Encoded texts -/

theorem uri_set_percent : uriSet 37 = true := by decide

/-- Letters, digits, `-`, `.`, `_` and `~`. -/
theorem unreserved_iff (c : Char) : isUnreserved c = true ↔
    (48 ≤ c.toNat ∧ c.toNat ≤ 57) ∨ (65 ≤ c.toNat ∧ c.toNat ≤ 90) ∨ (97 ≤ c.toNat ∧ c.toNat ≤ 122) ∨
      c.toNat ∈ [45, 46, 95, 126] := by
  have byte : (UInt8.ofNat c.toNat).toNat = c.toNat % 256 := UInt8.toNat_ofNat'
  simp only [isUnreserved, keeps, uriSet, Bool.and_eq_true, decide_eq_true_eq, Bool.not_not,
    Bool.or_eq_true, alphanumeric_iff, byte, ← UInt8.toNat_inj, UInt8.reduceToNat, List.mem_cons,
    List.not_mem_nil, or_false]
  omega

theorem uri_encode_char {text : Str} {c : Char} (member : c ∈ uriEncode text) :
    c = '%' ∨ isUnreserved c = true := by
  obtain ⟨b, inside, rfl⟩ := List.mem_map.mp member
  rcases encoded_mem uriSet _ b inside with rfl | letter | kept
  · exact .inl rfl
  · have ranges := (alphanumeric_iff b).mp letter
    right
    rw [unreserved_iff, byte_char_code]
    exact ranges.imp_right (Or.imp_right .inl)
  · exact .inr (keeps_byte kept)

theorem uri_encode_clear {text : Str} {c : Char} (other : c ≠ '%') (reserved : isUnreserved c = false) :
    c ∉ uriEncode text := by
  intro member
  rcases uri_encode_char member with same | kept
  · exact other same
  · rw [reserved] at kept
    cases kept

theorem uri_encode_same {text : Str} (kept : ∀ c ∈ text, isUnreserved c = true) :
    uriEncode text = text :=
  ((percent_encode_same_iff uriSet text).mpr kept).symm

theorem uri_encode_plain {text : Str} (plain : text.all isUnreserved = true) : uriEncode text = text :=
  uri_encode_same (List.all_eq_true.mp plain)

theorem decoded_pairs_of {pairs : List (Str × Str)} (nonempty : pairs ≠ []) :
    decodedPairs (canonicalQuery pairs) = some pairs := by
  have encoded : rawPairs (canonicalQuery pairs) =
      pairs.map fun pair => (uriEncode pair.1, uriEncode pair.2) := by
    apply raw_pairs_join
    · simpa using nonempty
    · intro pair member
      obtain ⟨own, _, rfl⟩ := List.mem_map.mp member
      exact ⟨uri_encode_clear (by decide) (by decide), uri_encode_clear (by decide) (by decide),
        uri_encode_clear (by decide) (by decide)⟩
  rw [decodedPairs, encoded]
  clear encoded nonempty
  induction pairs with
  | nil => rfl
  | cons pair rest ih =>
      have name := percent_decode_str_encode uriSet uri_set_percent pair.1
      have value := percent_decode_str_encode uriSet uri_set_percent pair.2
      rw [List.map_cons, List.mapM_cons, ih]
      simp only [uriEncode, name, value]
      rfl

theorem unreserved_or_slash_iff (c : Char) :
    keeps uriPathSet c = true ↔ isUnreserved c = true ∨ c = '/' := by
  by_cases slash : c = '/'
  · subst slash
    decide
  · have other : c.toNat ≠ 47 := by
      intro same
      exact slash (by rw [← Char.ofNat_toNat c, same])
    by_cases small : c.toNat < 128
    · have byte : UInt8.ofNat c.toNat ≠ 47 := by
        simp only [Ne, ← UInt8.toNat_inj, UInt8.toNat_ofNat', UInt8.reduceToNat]
        omega
      simp [keeps, isUnreserved, uriPathSet, small, slash, byte]
    · simp [keeps, isUnreserved, small, slash]

theorem bucket_unreserved {name : Str} (valid : validateBucketName name = .ok ()) :
    ∀ c ∈ name, isUnreserved c = true := by
  intro c member
  have own := (bucket_name_facts valid).2.2.1 c member
  simp only [isBucketChar, isAsciiLowercase, isAsciiDigit, Bool.or_eq_true, Bool.and_eq_true,
    decide_eq_true_eq, char_le_iff, Char.reduceToNat] at own
  rw [unreserved_iff]
  rcases own with ((lower | digit) | rfl) | rfl
  · exact .inr (.inr (.inl lower))
  · exact .inl digit
  · decide
  · decide

/-! ### The signed path and the signed query -/

theorem canonical_path_iff {bucket : Str} (valid : validateBucketName bucket = .ok ()) (key : Str) :
    objectPath bucket key = uriEncodePath (objectPath bucket key) ↔
      ∀ c ∈ key, isUnreserved c = true ∨ c = '/' := by
  have slash : keeps uriPathSet '/' = true := by decide
  have bucketKept : ∀ c ∈ bucket, keeps uriPathSet c = true := fun c member =>
    (unreserved_or_slash_iff c).mpr (.inl (bucket_unreserved valid c member))
  rw [uriEncodePath, percent_encode_same_iff]
  simp only [objectPath, List.mem_append, List.mem_singleton, or_imp, forall_and, forall_eq, slash,
    true_and]
  constructor
  · rintro ⟨_, kept⟩ c member
    exact (unreserved_or_slash_iff c).mp (kept c member)
  · intro kept
    exact ⟨⟨bucketKept, trivial⟩, fun c member => (unreserved_or_slash_iff c).mpr (kept c member)⟩

theorem digits_unreserved (n : Nat) : ∀ c ∈ (toString n).toList, isUnreserved c = true := by
  intro c member
  rw [Nat.toString_eq_ofList_toDigits, String.toList_ofList] at member
  have digit := Nat.isDigit_of_mem_toDigits (by omega) (le_refl 10) member
  simp only [Char.isDigit, Bool.and_eq_true, decide_eq_true_eq] at digit
  exact (unreserved_iff c).mpr (.inl digit)

theorem padded_unreserved (width n : Nat) : ∀ c ∈ padded width n, isUnreserved c = true := by
  intro c member
  rcases List.mem_append.mp member with zero | digit
  · rw [List.eq_of_mem_replicate zero]
    decide
  · exact digits_unreserved n c digit

theorem datetime_unreserved (unixSecs : Nat) :
    ∀ c ∈ formatUtcDatetime unixSecs, isUnreserved c = true := by
  intro c member
  simp only [formatUtcDatetime, List.mem_append, List.mem_singleton] at member
  rcases member with ((((((h | h) | h) | rfl) | h) | h) | h) | rfl
  · exact padded_unreserved _ _ c h
  · exact padded_unreserved _ _ c h
  · exact padded_unreserved _ _ c h
  · decide
  · exact padded_unreserved _ _ c h
  · exact padded_unreserved _ _ c h
  · exact padded_unreserved _ _ c h
  · decide

theorem amzdate_unreserved (now : Nat) : ∀ c ∈ (amzTimestamps now).1, isUnreserved c = true := by
  have date : (amzTimestamps now).1 = formatUtcDatetime now := rfl
  rw [date]
  exact datetime_unreserved now

theorem datestamp_unreserved (now : Nat) : ∀ c ∈ (amzTimestamps now).2, isUnreserved c = true := by
  rw [amzTimestamps]
  dsimp only
  intro c member
  exact datetime_unreserved now c (List.mem_of_mem_take member)

/-- Escaping the slashes alone is all that a text needs exactly when the rest is unreserved. -/
theorem credential_same_iff (text : Str) :
    percentEncodeCredential text = uriEncode text ↔ ∀ c ∈ text, isUnreserved c = true ∨ c = '/' := by
  have slash : credentialChar '/' = utf8PercentEncode ['/'] uriSet := by decide
  have shorter : ∀ c, (credentialChar c).length ≤ (utf8PercentEncode [c] uriSet).length := by
    intro c
    by_cases same : c = '/'
    · rw [same, slash]
    · rw [credentialChar, if_neg same, List.length_singleton]
      exact percent_encode_char_length uriSet c
  rw [uriEncode, percent_encode_chars, percentEncodeCredential, flatMap_same_iff shorter]
  apply forall₂_congr
  intro c _
  by_cases same : c = '/'
  · rw [same]
    exact iff_of_true slash (.inr rfl)
  · rw [credentialChar, if_neg same, percent_encode_char_iff]
    simp [isUnreserved, same]

theorem join_second (first third : Str × Str) (name value : Str) (rest : List (Str × Str)) :
    joinPairs (first :: (name, value) :: third :: rest) =
      (first.1 ++ '=' :: first.2 ++ '&' :: (name ++ ['='])) ++ value ++
        '&' :: joinPairs (third :: rest) := by
  simp [joinPairs, List.intercalate]

theorem join_last {pairs : List (Str × Str)} (nonempty : pairs ≠ []) (pair : Str × Str) :
    joinPairs (pairs ++ [pair]) = joinPairs pairs ++ '&' :: (pair.1 ++ '=' :: pair.2) := by
  induction pairs with
  | nil => exact absurd rfl nonempty
  | cons first rest ih =>
      cases rest with
      | nil => simp [joinPairs, List.intercalate]
      | cons next more =>
          have tail := ih (by simp)
          simp only [joinPairs, List.intercalate, List.cons_append, List.map_cons,
            List.intersperse_cons_cons, List.flatten_cons] at tail ⊢
          rw [tail]
          simp

theorem amz_params_sorted (credential amzdate : Str) (expiresSecs : UInt32) :
    ((amzParams credential amzdate expiresSecs).mergeSort fun a b => decide (a.1 ≤ b.1)) =
      amzParams credential amzdate expiresSecs := by
  have names : (amzParams credential amzdate expiresSecs).map Prod.fst =
      (amzParams [] [] 0).map Prod.fst := rfl
  have sorted : List.Pairwise (fun a b : Str => decide (a ≤ b) = true)
      ((amzParams credential amzdate expiresSecs).map Prod.fst) := by
    rw [names]
    decide
  exact List.mergeSort_of_pairwise (List.pairwise_map.mp sorted)

/-- The five parameters except for the credential stand for themselves. -/
theorem canonical_params (credential : Str) (now : Nat) (expiresSecs : UInt32) :
    canonicalQuery (amzParams credential (amzTimestamps now).1 expiresSecs) =
      joinPairs (amzParams (uriEncode credential) (amzTimestamps now).1 expiresSecs) := by
  have date := uri_encode_same (amzdate_unreserved now)
  have expires := uri_encode_same (digits_unreserved expiresSecs.toNat)
  have plain : (["X-Amz-Algorithm".toList, "AWS4-HMAC-SHA256".toList, "X-Amz-Credential".toList,
      "X-Amz-Date".toList, "X-Amz-Expires".toList, "X-Amz-SignedHeaders".toList,
      "host".toList].all fun text => text.all isUnreserved) = true := by decide
  have fixed := fun text member => uri_encode_plain (List.all_eq_true.mp plain text member)
  simp only [List.forall_mem_cons] at fixed
  obtain ⟨first, second, third, fourth, fifth, sixth, seventh, _⟩ := fixed
  simp only [canonicalQuery, amzParams, List.map_cons, List.map_nil, first, second, third, fourth,
    fifth, sixth, seventh, date, expires]

/-- The credential stands in the middle of a query that is fixed otherwise. -/
theorem amz_params_join (amzdate : Str) (expiresSecs : UInt32) : ∃ front back, ∀ credential,
    joinPairs (amzParams credential amzdate expiresSecs) = front ++ credential ++ back :=
  ⟨_, _, fun credential => join_second _ _ _ credential _⟩

theorem canonical_query_iff (input : PresignInput) (now : Nat) :
    (input.canonicalRequest now).query =
        canonicalQuery (amzParams (input.credential now) (amzTimestamps now).1 input.expiresSecs) ↔
      ∀ c ∈ input.credential now, isUnreserved c = true ∨ c = '/' := by
  rw [canonical_params, PresignInput.canonicalRequest, buildCanonicalQs, amz_params_sorted,
    ← credential_same_iff]
  obtain ⟨front, back, shape⟩ := amz_params_join (amzTimestamps now).1 input.expiresSecs
  rw [shape, shape]
  constructor
  · intro same
    exact List.append_cancel_left (List.append_cancel_right same)
  · intro same
    rw [same]

theorem credential_chars (input : PresignInput) (now : Nat) (plain : '/' ∉ input.accessKey) :
    (∀ c ∈ input.credential now, isUnreserved c = true ∨ c = '/') ↔
      (∀ c ∈ input.accessKey, isUnreserved c = true) ∧
        ∀ c ∈ input.region, isUnreserved c = true ∨ c = '/' := by
  have scope : ∀ c ∈ "/s3/aws4_request".toList, isUnreserved c = true ∨ c = '/' := by
    have all : ("/s3/aws4_request".toList.all fun c => isUnreserved c || c = '/') = true := by decide
    simpa only [List.all_eq_true, Bool.or_eq_true, decide_eq_true_eq] using all
  have date := datestamp_unreserved now
  simp only [PresignInput.credential, PresignInput.credentialScope, List.mem_append,
    List.mem_singleton]
  constructor
  · intro kept
    constructor
    · intro c member
      rcases kept c (.inl (.inl member)) with own | rfl
      · exact own
      · exact absurd member plain
    · intro c member
      exact kept c (.inr (.inl (.inr member)))
  · rintro ⟨access, region⟩ c ((member | rfl) | ((member | rfl) | member) | member)
    · exact .inl (access c member)
    · exact .inr rfl
    · exact .inl (date c member)
    · exact .inr rfl
    · exact region c member
    · exact scope c member

theorem signature_unreserved (sha : Sha) (input : PresignInput) (now : Nat) :
    ∀ c ∈ input.signature sha now, isUnreserved c = true := by
  have digit : ∀ n : Fin 16, isUnreserved (hexChar n.val) = true := by decide
  intro c member
  obtain ⟨b, _, inside⟩ := List.mem_flatMap.mp member
  have bound := b.toNat_lt
  simp only [List.mem_cons, List.not_mem_nil, or_false] at inside
  rcases inside with rfl | rfl
  · exact digit ⟨b.toNat / 16, by omega⟩
  · exact digit ⟨b.toNat % 16, by omega⟩

/-! ### When a presigned URL stands for its object -/

theorem canonical_query_last {pairs : List (Str × Str)} (nonempty : pairs ≠ []) (name value : Str) :
    canonicalQuery (pairs ++ [(name, value)]) =
      canonicalQuery pairs ++ '&' :: (uriEncode name ++ '=' :: uriEncode value) := by
  rw [canonicalQuery, List.map_append, List.map_singleton, join_last (by simpa using nonempty)]
  rfl

/-- Nothing in the request needs an escape but the slashes of the credential. -/
def SignedAsWritten (key accessKey region : Str) : Prop :=
  (∀ c ∈ key, isUnreserved c = true ∨ c = '/') ∧ (∀ c ∈ accessKey, isUnreserved c = true) ∧
    ∀ c ∈ region, isUnreserved c = true ∨ c = '/'

instance (key accessKey region : Str) : Decidable (SignedAsWritten key accessKey region) :=
  decidable_of_iff ((key.all fun c => isUnreserved c || c = '/') = true ∧
    accessKey.all isUnreserved = true ∧ (region.all fun c => isUnreserved c || c = '/') = true)
    (by simp only [SignedAsWritten, List.all_eq_true, Bool.or_eq_true, decide_eq_true_eq])

theorem presign_reaches_iff (sha : Sha) (now : Nat) {bucket : Str}
    (valid : validateBucketName bucket = .ok ()) (key : Str) (input : PresignInput)
    (target : input.path = objectPath bucket key) (plain : '/' ∉ input.accessKey) :
    input.Reaches sha now bucket key (presignUrl sha now input) ↔
      SignedAsWritten key input.accessKey input.region := by
  have pathIff := canonical_path_iff valid key
  have queryIff := (canonical_query_iff input now).trans (credential_chars input now plain)
  have signed : (input.canonicalRequest now).path = objectPath bucket key := target
  constructor
  · intro reaches
    have path := reaches.canonicalPath
    rw [signed] at path
    exact ⟨pathIff.mp path, queryIff.mp reaches.canonicalQuery⟩
  · rintro ⟨plainKey, plainRest⟩
    have path := pathIff.mpr plainKey
    have query := queryIff.mpr plainRest
    have kept := (percent_encode_same_iff uriPathSet _).mp path
    have clear : ∀ c, keeps uriPathSet c = false → c ∉ objectPath bucket key := by
      intro c reserved member
      rw [kept c member] at reserved
      cases reserved
    have decoded := percent_decode_str_encode uriPathSet (by decide) (objectPath bucket key)
    rw [← uriEncodePath, ← path] at decoded
    have name : "&X-Amz-Signature=".toList = '&' :: ("X-Amz-Signature".toList ++ ['=']) := by decide
    have own : uriEncode "X-Amz-Signature".toList = "X-Amz-Signature".toList :=
      uri_encode_plain (by decide)
    have whole : (input.canonicalRequest now).query ++
        ("&X-Amz-Signature=".toList ++ input.signature sha now) =
        canonicalQuery (amzParams (input.credential now) (amzTimestamps now).1 input.expiresSecs ++
          [("X-Amz-Signature".toList, input.signature sha now)]) := by
      rw [canonical_query_last (by simp [amzParams]), own,
        uri_encode_same (signature_unreserved sha input now), query, name]
      simp only [List.cons_append, List.append_assoc, List.nil_append]
    refine ⟨⟨objectPath bucket key ++ '?' :: ((input.canonicalRequest now).query ++
      ("&X-Amz-Signature=".toList ++ input.signature sha now)), ?_, ?_⟩, signed.trans path, query⟩
    · unfold presignUrl
      simp only [target, List.append_assoc, List.cons_append, List.nil_append]
    · rw [splitFirst_append (clear '?' (by decide)), whole]
      exact ⟨clear '#' (by decide), decoded, decoded_pairs_of (by simp)⟩

theorem reserved_key_missed (sha : Sha) (now : Nat) (args : PresignArgs)
    (valid : validateBucketName args.bucket = .ok ()) (plain : '/' ∉ args.accessKey) {c : Char}
    (member : c ∈ args.key) (reserved : isUnreserved c = false) (other : c ≠ '/') :
    ¬ (runPresignInput args).Reaches sha now args.bucket args.key (runPresign sha now args) := by
  intro reaches
  have written := (presign_reaches_iff sha now valid args.key (runPresignInput args) rfl plain).mp
    reaches
  rcases written.1 c member with kept | same
  · rw [reserved] at kept
    cases kept
  · exact other same

/-- The URL of either caller stands for the object exactly when the key, the access key and the
region are made of unreserved characters, apart from slashes in the key and the region. -/
theorem presigned_url_denotes_iff (sha : Sha) (now : Nat) {bucket : Str}
    (valid : validateBucketName bucket = .ok ()) (key : Str) :
    (∀ state : AppState, '/' ∉ state.accessKeyId.getD [] →
      ((presignFnInput state bucket key).Reaches sha now bucket key
          (presignFn sha now state bucket key) ↔
        SignedAsWritten key (state.accessKeyId.getD []) state.region)) ∧
    ∀ args : PresignArgs, args.bucket = bucket → args.key = key → '/' ∉ args.accessKey →
      ((runPresignInput args).Reaches sha now bucket key (runPresign sha now args) ↔
        SignedAsWritten key args.accessKey args.region) := by
  constructor
  · intro state plain
    exact presign_reaches_iff sha now valid key (presignFnInput state bucket key) rfl plain
  · rintro args rfl rfl plain
    exact presign_reaches_iff sha now valid args.key (runPresignInput args) rfl plain

/-- Two functions in place of the digests. -/
def Reference.sha : Sha := { sha256 := id, hmacSha256 := fun key data => key ++ data }

def Reference.presignArgs (key : Str) : PresignArgs where
  verb := .get
  bucket := "photos".toList
  key := key
  endpoint := "127.0.0.1:9000".toList
  expiresIn := 900
  accessKey := "AKIDEXAMPLE".toList
  secretKey := "secret".toList
  region := "us-east-1".toList

theorem presigned_url_denotes_iff_photos :
    (runPresignInput (Reference.presignArgs "2024/cat.jpg".toList)).Reaches Reference.sha 1700000000
      "photos".toList "2024/cat.jpg".toList
      (runPresign Reference.sha 1700000000 (Reference.presignArgs "2024/cat.jpg".toList)) :=
  ((presigned_url_denotes_iff Reference.sha 1700000000 (by decide) "2024/cat.jpg".toList).2
    (Reference.presignArgs "2024/cat.jpg".toList) rfl rfl (by decide)).mpr (by decide +kernel)

/-- A `?` in the key ends the path before it: the URL stands for another object. -/
theorem presigned_question_cut :
    ¬ (runPresignInput (Reference.presignArgs "a?b".toList)).Reaches Reference.sha 1700000000
        (Reference.presignArgs "a?b".toList).bucket (Reference.presignArgs "a?b".toList).key
        (runPresign Reference.sha 1700000000 (Reference.presignArgs "a?b".toList)) ∧
      percentDecodeStr (splitFirst '?' (objectPath "photos".toList "a?b".toList)).1 =
        some (objectPath "photos".toList "a".toList) := by
  constructor
  · exact reserved_key_missed Reference.sha 1700000000 (Reference.presignArgs "a?b".toList)
      (by decide) (by decide) (show '?' ∈ "a?b".toList by decide) (by decide) (by decide)
  · decide +kernel

end Ferrobucket
