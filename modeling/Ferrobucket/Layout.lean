import Ferrobucket.Encode
/-! The on-disk layout of fs.rs and the grammar of bucket names. Paths are built with
`Path::join` from whatever strings a request carries; only the bucket name and the
key are checked before they get there. -/
namespace Ferrobucket
open Text Posix

/-! The fixed names of the layout. -/

def objectsName : Str := "objects".toList

def metaName : Str := "meta".toList

def bucketJsonName : Str := ".bucket.json".toList

def uploadsName : Str := ".uploads".toList

def multipartJsonName : Str := "_meta.json".toList

structure FsStorage where
  dataRoot : Path

namespace FsStorage

def rootPath (storage : FsStorage) : PathBuf := ⟨storage.dataRoot, []⟩

def bucketPath (storage : FsStorage) (name : Str) : PathBuf := storage.rootPath.join name

def objectsDir (storage : FsStorage) (bucket : Str) : PathBuf :=
  (storage.bucketPath bucket).join objectsName

def metaDir (storage : FsStorage) (bucket : Str) : PathBuf :=
  (storage.bucketPath bucket).join metaName

def objectPath (storage : FsStorage) (bucket encodedKey : Str) : PathBuf :=
  (storage.objectsDir bucket).join encodedKey

def sidecarName (encodedKey : Str) : Str := encodedKey ++ ".json".toList

def metaPath (storage : FsStorage) (bucket encodedKey : Str) : PathBuf :=
  (storage.metaDir bucket).join (sidecarName encodedKey)

def uploadsRoot (storage : FsStorage) : PathBuf := storage.rootPath.join uploadsName

def uploadDir (storage : FsStorage) (uploadId : Str) : PathBuf := storage.uploadsRoot.join uploadId

/-- `i32::to_string`. -/
def partName (partNumber : Int) : Str := (toString partNumber).toList

def partPath (storage : FsStorage) (uploadId : Str) (partNumber : Int) : PathBuf :=
  (storage.uploadDir uploadId).join (partName partNumber)

end FsStorage

/-! ### Bucket names -/

def reservedBucketNames : List Str := ["ui".toList, "pkg".toList]

def isAsciiDigit (c : Char) : Bool := '0' ≤ c && c ≤ '9'

def isAsciiLowercase (c : Char) : Bool := 'a' ≤ c && c ≤ 'z'

/-- `str::parse::<u8>` of a nonempty string of digits. -/
def parsesAsU8 (digits : Str) : Bool :=
  digits.foldl (fun value c => 10 * value + (c.toNat - 48)) 0 < 256

def isIpv4Formatted (name : Str) : Bool :=
  let parts := name.splitOn '.'
  parts.length = 4 && parts.all fun p => p ≠ [] && p.all isAsciiDigit && parsesAsU8 p

/-- `b.is_ascii_lowercase() || b.is_ascii_digit() || b == b'-' || b == b'.'`, read on
characters: no byte of a character outside ASCII satisfies it. -/
def isBucketChar (c : Char) : Bool := isAsciiLowercase c || isAsciiDigit c || c = '-' || c = '.'

def validateBucketName (name : Str) : Except StorageError Unit :=
  if name ∈ reservedBucketNames then
    .error (.InvalidBucketName
      ("'".toList ++ name ++ "' is reserved by the server and cannot be used as a bucket name".toList))
  else if ¬ (3 ≤ utf8Len name ∧ utf8Len name ≤ 63) then .error (.InvalidBucketName name)
  else
    let validChars := name.all isBucketChar
    let noLeadingTrailingHyphen := !startsWith name ['-'] && !endsWith name ['-']
    let noLeadingTrailingDot := !startsWith name ['.'] && !endsWith name ['.']
    let noConsecutiveDots := !contains name "..".toList
    let notIpFormatted := !isIpv4Formatted name
    if !validChars || !noLeadingTrailingHyphen || !noLeadingTrailingDot || !noConsecutiveDots ||
        !notIpFormatted then
      .error (.InvalidBucketName name)
    else .ok ()

end Ferrobucket
