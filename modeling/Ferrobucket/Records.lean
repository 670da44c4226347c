import Ferrobucket.Lib.Syscall
/-! The records that storage keeps and the errors it answers with. JSON and MD5 come
from outside crates: a codec is any serializer with a reader that undoes it, and the
digest is any function of the bytes. -/
namespace Ferrobucket
open Text Posix

inductive IoError where
  | os (errno : Errno)
  | invalidData (text : Str)
  | other (text : Str)
  deriving DecidableEq

inductive StorageError where
  | NoSuchBucket (name : Str)
  | NoSuchKey (key : Str)
  | BucketNotEmpty (name : Str)
  | BucketAlreadyExists (name : Str)
  | InvalidBucketName (text : Str)
  | KeyTooLong (key : Str)
  | InvalidKey
  | InvalidContinuationToken
  | RangeNotSatisfiable
  | NoSuchUpload (text : Str)
  | InvalidPartNumber (number : Int)
  | Io (error : IoError)
  deriving DecidableEq

structure ObjectMeta where
  key : Str
  size : Nat
  contentType : Str
  etag : Str
  lastModified : Nat
  deriving DecidableEq

structure BucketInfo where
  name : Str
  createdAt : Nat
  deriving DecidableEq

structure MultipartMeta where
  bucket : Str
  key : Str
  contentType : Option Str
  deriving DecidableEq

/-- `serde_json` at one type: what is written reads back, and a reader may refuse. -/
structure Codec (Value : Type) where
  encode : Value → Bytes
  decode : Bytes → Except Str Value
  decode_encode : ∀ value, decode (encode value) = .ok value

/-- What storage uses of the crates it is built on. -/
structure Crates where
  md5 : Bytes → Bytes
  objectMeta : Codec ObjectMeta
  bucketInfo : Codec BucketInfo
  multipartMeta : Codec MultipartMeta

attribute [simp] Codec.decode_encode

theorem codec_injective {Value : Type} (codec : Codec Value) : Function.Injective codec.encode := by
  intro left right same
  have read := congrArg codec.decode same
  simpa using read

/-! The ETag hasher absorbs chunks; the digest is taken of everything absorbed. -/

structure EtagHasher where
  absorbed : Bytes := []

def EtagHasher.new : EtagHasher := {}

def EtagHasher.update (hasher : EtagHasher) (data : Bytes) : EtagHasher :=
  ⟨hasher.absorbed ++ data⟩

def hexLower (n : Nat) : Char := if n < 10 then Char.ofNat (48 + n) else Char.ofNat (87 + n)

/-- `{:02x}` of every byte. -/
def hexText (bytes : Bytes) : Str :=
  bytes.flatMap fun b => [hexLower (b.toNat / 16), hexLower (b.toNat % 16)]

def hexMd5 (crates : Crates) (bytes : Bytes) : Str := hexText (crates.md5 bytes)

def EtagHasher.finalize (crates : Crates) (hasher : EtagHasher) : Str :=
  hexMd5 crates hasher.absorbed

/-! Byte ranges of `range.rs`, in `u64` arithmetic: no operation below can wrap. -/

inductive ByteRange where
  | full (first last : UInt64)
  | openFrom (first : UInt64)
  | suffix (n : UInt64)

structure ResolvedRange where
  start : UInt64
  length : UInt64
  deriving DecidableEq

def ByteRange.resolve (range : ByteRange) (objectLen : UInt64) : Option ResolvedRange :=
  match range with
  | .full first last =>
      if objectLen = 0 ∨ first ≥ objectLen then none
      else
        let clampedLast := min last (objectLen - 1)
        if first > clampedLast then none
        else some ⟨first, clampedLast - first + 1⟩
  | .openFrom first =>
      if objectLen = 0 ∨ first ≥ objectLen then none
      else some ⟨first, objectLen - first⟩
  | .suffix n =>
      let clampedN := min n objectLen
      some ⟨objectLen - clampedN, clampedN⟩

end Ferrobucket
