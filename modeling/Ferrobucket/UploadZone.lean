import Ferrobucket.Links
/-! The two ways in which `UploadIsland` uploads a file, from upload_zone.rs, as programs over what
they ask of the browser: a file of up to 8 MiB in a single request, a larger one in slices. -/
namespace Ferrobucket
open Text Program

namespace UploadIsland

/-- How a request ended: with a response, whose text may not arrive, or without one. -/
inductive Reached where
  | response (status : Nat) (text : Option Str)
  | failed

/-- What the functions ask of the browser: an `XmlHttpRequest` with its upload object, sending it,
a slice of the file, the label of the part, and a request through `fetch`. -/
inductive Browser where
  | newXhr
  | send (url : Str) (blob : Bytes)
  | slice (start stop : Nat)
  | setPart (part total : Nat)
  | fetch (url : Str) (body : Option Bytes)

abbrev BrowserReply : Browser → Type
  | .newXhr => Bool
  | .send _ _ => Reached
  | .slice _ _ => Option Bytes
  | .setPart _ _ => Unit
  | .fetch _ _ => Reached

abbrev Task := Prog Browser BrowserReply Empty

def newXhr : Task Bool := .call .newXhr .done

def send (url : Str) (blob : Bytes) : Task Reached := .call (.send url blob) .done

def slice (start stop : Nat) : Task (Option Bytes) := .call (.slice start stop) .done

def setPart (part total : Nat) : Task Unit := .call (.setPart part total) .done

def fetch (url : Str) (body : Option Bytes) : Task Reached := .call (.fetch url body) .done

inductive UploadStatus where
  | inProgress
  | done
  | error
  deriving DecidableEq

/-! ### Requests -/

/-- `Response::ok`. -/
def isSuccess (status : Nat) : Bool := 200 ≤ status && status ≤ 299

def received : Reached → Except Unit Str
  | .failed => .error ()
  | .response status text =>
      if !isSuccess status then .error ()
      else
        match text with
        | none => .error ()
        | some text => .ok text

def post (url : Str) (body : Option Bytes) : Task (Except Unit Str) := do
  let answer ← fetch url body
  pure (received answer)

def postBlob (blob : Bytes) (url : Str) : Task (Except Unit Str) := post url (some blob)

def postText (url : Str) (body : Option Str) : Task (Except Unit Str) := post url (body.map utf8)

theorem received_ok {answer : Reached} {text : Str} (ok : received answer = .ok text) :
    ∃ status, answer = .response status (some text) ∧ isSuccess status = true := by
  cases answer with
  | failed => cases ok
  | response status arrived =>
      cases success : isSuccess status with
      | false =>
          simp only [received, success] at ok
          cases ok
      | true =>
          cases arrived with
          | none =>
              simp only [received, success] at ok
              cases ok
          | some found =>
              simp only [received, success] at ok
              cases ok
              exact ⟨status, rfl, success⟩

/-! ### A single request -/

/-- The two callbacks: any response is a load, and only a request without one is an error. -/
def loaded : Reached → UploadStatus
  | .response _ _ => .done
  | .failed => .error

/-- Without its request the function returns and leaves the status as it was. -/
def uploadSmallFile (file : Bytes) (bucket key : Str) : Task (Option UploadStatus) := do
  let made ← newXhr
  if made then do
    let answer ← send (url bucket key) file
    pure (some (loaded answer))
  else pure none

/-! ### Slices -/

/-- The characters that `str::trim` removes. -/
def isWhiteSpace (c : Char) : Bool :=
  (9 ≤ c.toNat && c.toNat ≤ 13) || (8192 ≤ c.toNat && c.toNat ≤ 8202) ||
    c.toNat ∈ [32, 133, 160, 5760, 8232, 8233, 8239, 8287, 12288]

def trim (text : Str) : Str :=
  ((text.dropWhile isWhiteSpace).reverse.dropWhile isWhiteSpace).reverse

theorem drop_white {text : Str} (plain : ∀ c ∈ text, isWhiteSpace c = false) :
    text.dropWhile isWhiteSpace = text := by
  cases text with
  | nil => rfl
  | cons c rest => rw [List.dropWhile_cons, plain c List.mem_cons_self, if_neg Bool.false_ne_true]

theorem trim_plain {text : Str} (plain : ∀ c ∈ text, isWhiteSpace c = false) : trim text = text := by
  have reversed : ∀ c ∈ text.reverse, isWhiteSpace c = false := fun c member =>
    plain c (List.mem_reverse.mp member)
  rw [trim, drop_white plain, drop_white reversed, List.reverse_reverse]

def sliceStart (partNum : Nat) : Nat := (partNum - 1) * partSizeBytes

def sliceStop (fileSize partNum : Nat) : Nat := min (partNum * partSizeBytes) fileSize

section Parts
variable (fileSize : Nat) (bucket key uploadId : Str)

/-- The loop over the parts; a slice or a request that fails ends it without a list. -/
def uploadParts : List Nat → List Int32 → Task (Option (List Int32))
  | [], partNumbers => pure (some partNumbers)
  | partNum :: rest, partNumbers => do
      let chunk ← slice (sliceStart partNum) (sliceStop fileSize partNum)
      match chunk with
      | none => pure none
      | some chunk => do
          setPart partNum (numParts fileSize)
          let posted ← postBlob chunk (partUrl bucket key uploadId partNum)
          match posted with
          | .error _ => pure none
          | .ok _ => uploadParts rest (partNumbers ++ [Int32.ofNat partNum])

end Parts

/-- The JSON text of the part numbers. -/
def bodyJson (partNumbers : List Int32) : Str :=
  ['['] ++ [','].intercalate (partNumbers.map fun n => (toString n.toInt).toList) ++ [']']

def completeParts (bucket key uploadId : Str) (partNumbers : List Int32) : Task UploadStatus := do
  let completed ← postText (completeUrl bucket key uploadId) (some (bodyJson partNumbers))
  match completed with
  | .ok _ => pure .done
  | .error _ => pure .error

def abortParts (bucket key uploadId : Str) : Task UploadStatus := do
  let _ ← postText (abortUrl bucket key uploadId) none
  pure .error

/-- The steps behind the first request, with the id that it has given. -/
def uploadCreated (fileSize : Nat) (bucket key uploadId : Str) : Task UploadStatus := do
  let parts ← uploadParts fileSize bucket key uploadId (List.range' 1 (numParts fileSize)) []
  match parts with
  | none => abortParts bucket key uploadId
  | some partNumbers => completeParts bucket key uploadId partNumbers

/-- The status with which the upload settles. -/
def uploadMultipart (fileSize : Nat) (bucket key : Str) : Task UploadStatus := do
  let created ← postText (createUrl bucket key) none
  match created with
  | .error _ => pure .error
  | .ok id => uploadCreated fileSize bucket key (trim id)

end UploadIsland
end Ferrobucket
