import Mathlib.Data.List.Sort
import Ferrobucket.Lib.Base64
import Ferrobucket.Layout
/-! The listing algorithm of list.rs, steps 2 to 6, on the keys that a directory scan
gave. The file system enters before it (the scan) and after it (one sidecar a key). -/
namespace Ferrobucket
open Text Posix

structure ListV2Req where
  pfx : Option Str := none
  delimiter : Option Str := none
  continuationToken : Option Str := none
  maxKeys : Option Nat := none

structure ListV2Res where
  objects : List ObjectMeta
  commonPrefixes : List Str
  nextContinuationToken : Option Str
  isTruncated : Bool

def encodeContinuationToken (lastKey : Str) : Str := Base64.encode (utf8 lastKey)

def decodeContinuationToken (token : Str) : Except StorageError Str :=
  match Base64.decode token with
  | none => .error .InvalidContinuationToken
  | some bytes =>
      match fromUtf8 bytes with
      | none => .error .InvalidContinuationToken
      | some key => .ok key

inductive Item where
  | object (key : Str)
  | commonPrefix (collapsed : Str)
  deriving DecidableEq

/-- An emitted result and the last underlying key that contributed to it. -/
structure Emitted where
  item : Item
  lastKey : Str
  deriving DecidableEq

/-- The collapsed prefix of a key, if its remainder contains the delimiter. -/
def collapsedPrefix (prefixStr : Str) (delimiter : Option Str) (key : Str) : Option Str :=
  match delimiter with
  | none => none
  | some delimiter =>
      let remainder := key.drop prefixStr.length
      match Lexical.find delimiter remainder with
      | none => none
      | some delimPos => some (prefixStr ++ remainder.take (delimPos + delimiter.length))

/-- One turn of the loop over the sorted keys. -/
def emitKey (prefixStr : Str) (delimiter : Option Str) (emitted : List Emitted) (key : Str) :
    List Emitted :=
  match collapsedPrefix prefixStr delimiter key with
  | some cp =>
      match emitted.getLast? with
      | some last =>
          if last.item = .commonPrefix cp then emitted.dropLast ++ [{ last with lastKey := key }]
          else emitted ++ [⟨.commonPrefix cp, key⟩]
      | none => emitted ++ [⟨.commonPrefix cp, key⟩]
  | none => emitted ++ [⟨.object key, key⟩]

def emitAll (prefixStr : Str) (delimiter : Option Str) (keys : List Str) : List Emitted :=
  keys.foldl (emitKey prefixStr delimiter) []

/-- Steps 2 to 4: sort, resume after the token, keep the prefix. -/
def selectKeys (keys : List Str) (req : ListV2Req) : Except StorageError (List Str) := do
  let sorted := keys.insertionSort (· ≤ ·)
  let resumed ← match req.continuationToken with
    | none => pure sorted
    | some token => do
        let after ← decodeContinuationToken token
        pure (sorted.filter fun k => after < k)
  match req.pfx with
  | none => pure resumed
  | some pfx => pure (resumed.filter fun k => startsWith k pfx)

/-- `unwrap_or(1000).clamp(1, 1000)`. -/
def effectiveMaxKeys (req : ListV2Req) : Nat := max 1 (min (req.maxKeys.getD 1000) 1000)

structure Page where
  capped : List Item
  nextContinuationToken : Option Str
  isTruncated : Bool

/-- Steps 5 and 6: group, then cap. -/
def capPage (req : ListV2Req) (keys : List Str) : Page :=
  let emitted := emitAll (req.pfx.getD []) req.delimiter keys
  let maxKeys := effectiveMaxKeys req
  let isTruncated : Bool := maxKeys < emitted.length
  { capped := (emitted.take maxKeys).map Emitted.item
    nextContinuationToken :=
      if isTruncated then
        (emitted[maxKeys - 1]?).map fun last => encodeContinuationToken last.lastKey
      else none
    isTruncated := isTruncated }

end Ferrobucket
