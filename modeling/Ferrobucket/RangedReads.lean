import Ferrobucket.BucketLife
import Ferrobucket.Ranges
/-! Reading part of an object. The storage resolves a range against the size in the record
and bounds the stream to the window; the adapter resolves it once more to write the headers.
Both are compared with the bytes of the whole object. -/
namespace Ferrobucket
open Text Posix Program

/-- `get_object` and the stream that it returns, read to the end. -/
def fetchRange (crates : Crates) (storage : FsStorage) (bucket key : Str) (range : Option ByteRange) :
    Op (ObjectMeta × Bytes) := do
  let (objectMeta, stream) ← getObject crates storage bucket key range
  let bytes ← ioOp stream.collect
  pure (objectMeta, bytes)

/-- The object is stored, and its record says how long its body is. -/
structure Bucket.StoresAs (bucket : Bucket) (encoded : Str) (objectMeta : ObjectMeta) (content : Bytes) :
    Prop where
  body : bucket.objects.lookup encoded = some content
  sidecar : ∃ sidecars, bucket.sidecars = some sidecars ∧
    sidecars.lookup (FsStorage.sidecarName encoded) = some objectMeta
  size : objectMeta.size = content.length
  small : content.length < 2 ^ 64

/-- The bytes at the positions that the range denotes; only a range from a first position is
refused, and only if it denotes none. -/
def RangeAnswered (objectMeta : ObjectMeta) (content : Bytes) (range : Option ByteRange)
    (outcome : Except StorageError (ObjectMeta × Bytes)) : Prop :=
  match range with
  | none => outcome = .ok (objectMeta, content)
  | some range =>
      ((range.IsSuffix ∨ ∃ position, range.Denotes content.length position) ∧
        outcome = .ok (objectMeta, range.selected content)) ∨
      (¬ range.IsSuffix ∧ (∀ position, ¬ range.Denotes content.length position) ∧
        outcome = .error .RangeNotSatisfiable)

/-- The stream that a get returns over an open body. -/
def streamOutcome (objectMeta : ObjectMeta) (inode : Handle) : Option ByteRange →
    Except StorageError (ObjectMeta × ObjectStream)
  | none => .ok (objectMeta, ⟨inode, 0, none⟩)
  | some range =>
      match range.resolve (UInt64.ofNat objectMeta.size) with
      | none => .error .RangeNotSatisfiable
      | some resolved =>
          .ok (objectMeta, ⟨inode, resolved.start.toNat, some resolved.length.toNat⟩)

section Stored
variable {crates : Crates} {storage : FsStorage} {s : FS} {store : Store} {bucket key encoded : Str}
  {old : Bucket} {objectMeta : ObjectMeta} {content : Bytes}

theorem head_stored (holds : Holds crates storage s store)
    (present : store.buckets.lookup bucket = some old) (admitted : encodeKey key = .ok encoded)
    (short : exceeds s.nameMax (FsStorage.sidecarName encoded) = false)
    (stored : old.StoresAs encoded objectMeta content) :
    store.headObject storage s.nameMax bucket key = .ok objectMeta := by
  obtain ⟨sidecars, kept, record⟩ := stored.sidecar
  have valid := (holds.sound.buckets bucket old present).valid
  simp [Store.headObject, valid, admitted, present, kept, short, record]

/-- A get opens the body whatever the range, unless it refuses the range. -/
theorem wp_getStored (holds : Holds crates storage s store)
    (present : store.buckets.lookup bucket = some old) (admitted : encodeKey key = .ok encoded)
    (short : exceeds s.nameMax (FsStorage.sidecarName encoded) = false)
    (stored : old.StoresAs encoded objectMeta content) :
    ∃ inode, s.data inode = content ∧ ∀ range post,
      wp faultFree (getObject crates storage bucket key range) post s ↔
        post (streamOutcome objectMeta inode range) s := by
  have valid := (holds.sound.buckets bucket old present).valid
  have found := head_stored holds present admitted short stored
  obtain ⟨nonempty, _⟩ := head_found holds valid admitted found
  have placed := locate_object_of_key holds valid present admitted nonempty
  have seen := look_object holds valid present encoded
  rw [stored.body] at seen
  obtain ⟨inode, named, held⟩ := FS.look_file.mp seen
  refine ⟨inode, held, ?_⟩
  intro range post
  simp only [getObject, valid, admitted, lift, Prog.ofExcept, Prog.done_bind]
  rw [wp_bind, wp_readSidecar holds valid admitted, found]
  cases range with
  | none =>
      simp only [streamObject, Prog.send_bind, Prog.call_bind, wp_open, FS.open_file placed named]
      exact Iff.rfl
  | some range =>
      simp only [streamOutcome]
      cases range.resolve (UInt64.ofNat objectMeta.size) with
      | none => exact Iff.rfl
      | some resolved =>
          simp only [Prog.send_bind, wp_open, FS.open_file placed named]
          exact Iff.rfl

/-- The window of a range that resolves shows the denoted bytes. -/
theorem resolved_selected {range : ByteRange} {resolved : ResolvedRange} (small : content.length < 2 ^ 64)
    (found : range.resolve (UInt64.ofNat content.length) = some resolved) :
    (content.drop resolved.start.toNat).take resolved.length.toNat = range.selected content := by
  obtain ⟨first, past⟩ := resolve_bounds found
  rw [UInt64.toNat_ofNat_of_lt' small] at first past
  have span : resolved.length.toNat = (range.bounds content.length).2 - (range.bounds content.length).1 := by
    omega
  rw [selected_eq, first, span]

theorem range_answered (range : Option ByteRange) (holds : Holds crates storage s store)
    (present : store.buckets.lookup bucket = some old) (admitted : encodeKey key = .ok encoded)
    (short : exceeds s.nameMax (FsStorage.sidecarName encoded) = false)
    (stored : old.StoresAs encoded objectMeta content) :
    wp faultFree (fetchRange crates storage bucket key range)
      (fun outcome after => RangeAnswered objectMeta content range outcome ∧ after = s) s := by
  obtain ⟨inode, held, opens⟩ := wp_getStored holds present admitted short stored
  unfold fetchRange
  rw [wp_bind, opens]
  cases range with
  | none =>
      simp only [streamOutcome, wp_bind, wp_ioOp, wp_collect, held]
      exact ⟨rfl, rfl⟩
  | some range =>
      simp only [streamOutcome, stored.size]
      cases found : range.resolve (UInt64.ofNat content.length) with
      | none =>
          obtain ⟨other, nothing⟩ := (resolve_none_iff range _).mp found
          rw [UInt64.toNat_ofNat_of_lt' stored.small, ← denotes_nothing] at nothing
          exact ⟨.inr ⟨other, nothing, rfl⟩, trivial⟩
      | some resolved =>
          simp only [wp_bind, wp_ioOp, wp_collect, held]
          refine ⟨.inl ⟨?_, ?_⟩, rfl⟩
          · by_contra neither
            obtain ⟨other, nothing⟩ := not_or.mp neither
            have refused := (resolve_none_iff range (UInt64.ofNat content.length)).mpr (by
              rw [UInt64.toNat_ofNat_of_lt' stored.small, ← denotes_nothing]
              exact ⟨other, not_exists.mp nothing⟩)
            rw [found] at refused
            cases refused
          · simp only [resolved_selected stored.small found]

theorem absent_refused (range : Option ByteRange) (holds : Holds crates storage s store)
    (valid : validateBucketName bucket = .ok ()) (admitted : encodeKey key = .ok encoded)
    (short : exceeds s.nameMax (FsStorage.sidecarName encoded) = false)
    (absent : ∀ old sidecars, store.buckets.lookup bucket = some old → old.sidecars = some sidecars →
      sidecars.lookup (FsStorage.sidecarName encoded) = none) :
    wp faultFree (fetchRange crates storage bucket key range)
      (fun outcome after => (∃ text, outcome = .error (.NoSuchKey text)) ∧ after = s) s := by
  have missing : ∃ text, store.headObject storage s.nameMax bucket key = .error (.NoSuchKey text) := by
    refine ⟨(storage.metaPath bucket encoded).display, ?_⟩
    simp only [Store.headObject, valid, admitted]
    cases present : store.buckets.lookup bucket with
    | none => rfl
    | some old =>
        cases kept : old.sidecars with
        | none => simp [kept]
        | some sidecars => simp [kept, short, absent old sidecars present kept]
  obtain ⟨text, missing⟩ := missing
  simp only [fetchRange, getObject, valid, admitted, lift, Prog.ofExcept, Prog.done_bind]
  rw [wp_bind, wp_bind, wp_readSidecar holds valid admitted, missing]
  exact ⟨⟨text, rfl⟩, rfl⟩

/-- Ranges are resolved without wrapping and within the object; a ranged get delivers the bytes
of the whole object at the denoted positions, is refused exactly where there are none to denote,
and finds no key that is not there. -/
theorem ranged_reads_agree (holds : Holds crates storage s store)
    (valid : validateBucketName bucket = .ok ()) (admitted : encodeKey key = .ok encoded)
    (short : exceeds s.nameMax (FsStorage.sidecarName encoded) = false) :
    (∀ (range : ByteRange) (size : UInt64), range.resolveChecked size = some (range.resolve size) ∧
      ∀ resolved, range.resolve size = some resolved →
        resolved.start.toNat + resolved.length.toNat ≤ size.toNat ∧
        (resolved.start + resolved.length).toNat = resolved.start.toNat + resolved.length.toNat) ∧
    (∀ old objectMeta content, store.buckets.lookup bucket = some old →
      old.StoresAs encoded objectMeta content →
      ∀ range, wp faultFree (fetchRange crates storage bucket key range)
        (fun outcome after => RangeAnswered objectMeta content range outcome ∧ after = s) s) ∧
    ((∀ old sidecars, store.buckets.lookup bucket = some old → old.sidecars = some sidecars →
        sidecars.lookup (FsStorage.sidecarName encoded) = none) →
      ∀ range, wp faultFree (fetchRange crates storage bucket key range)
        (fun outcome after => (∃ text, outcome = .error (.NoSuchKey text)) ∧ after = s) s) := by
  refine ⟨?_, ?_, ?_⟩
  · intro range size
    refine ⟨resolve_never_wraps range size, ?_⟩
    intro resolved found
    have within := resolve_within found
    have small := size.toNat_lt
    refine ⟨within, ?_⟩
    rw [UInt64.toNat_add]
    omega
  · intro old objectMeta content present stored range
    exact range_answered range holds present admitted short stored
  · intro absent range
    exact absent_refused range holds valid admitted short absent

end Stored

namespace Reference

def hello : Bytes := utf8 "hello".toList

/-- The object `a` is stored, with the body `hello`. -/
theorem hello_stored : ∃ s store old objectMeta, s.nameMax = none ∧
    Holds Crates.reference storage s store ∧ store.buckets.lookup bucket = some old ∧
    old.StoresAs ['a'] objectMeta hello := by
  obtain ⟨s, store, info, unlimited, holds, present⟩ := bucket_made none (.inl rfl)
  have valid : validateBucketName bucket = .ok () := by decide
  have admitted : encodeKey ['a'] = .ok ['a'] := by decide
  have put := wp_limited (put_refines holds bucket ['a'] [.ok hello] none)
  obtain ⟨outcome, t, _, ⟨time, rfl, after⟩, limit⟩ := wp_returns put
  obtain ⟨objectMeta, record, made⟩ := Store.put_made Crates.reference s.nameMax store none time valid
    present admitted (rfl : failure [.ok hello] = none) (List.cons_ne_nil _ _) rfl
    (by rw [unlimited]; rfl)
  rw [made] at after
  refine ⟨t, _, _, objectMeta, limit.trans unlimited, after, Finmap.lookup_insert _, ?_, ?_, ?_, by decide⟩
  · exact Finmap.lookup_insert _
  · exact ⟨_, rfl, Finmap.lookup_insert _⟩
  · rw [record]
    rfl

end Reference

theorem ranged_reads_agree_photos : ∃ s store old objectMeta,
    Holds Crates.reference Reference.storage s store ∧
    store.buckets.lookup Reference.bucket = some old ∧
    old.StoresAs ['a'] objectMeta Reference.hello ∧
    wp faultFree (fetchRange Crates.reference Reference.storage Reference.bucket ['a']
        (some (.suffix 3)))
      (fun outcome after => RangeAnswered objectMeta Reference.hello (some (.suffix 3)) outcome ∧
        after = s) s := by
  obtain ⟨s, store, old, objectMeta, unlimited, holds, present, stored⟩ := Reference.hello_stored
  have admitted : encodeKey ['a'] = .ok ['a'] := by decide
  have agree := ranged_reads_agree holds (by decide : validateBucketName Reference.bucket = .ok ())
    admitted (by rw [unlimited]; rfl)
  exact ⟨s, store, old, objectMeta, holds, present, stored, agree.2.1 old _ _ present stored _⟩

example : (ByteRange.suffix 3).selected Reference.hello = utf8 "llo".toList := by decide

/-! ### Responses -/

/-- The response announces what it delivers: the whole object, or the part that the header names. -/
inductive SelfConsistent (content : Bytes) (response : S3Response GetObjectOutput) (bytes : Bytes) : Prop
  | whole (status : response.status = .ok) (unnamed : response.output.contentRange = none)
      (length : response.output.contentLength.toInt = bytes.length) (all : bytes = content)
  | part (first last : UInt64) (status : response.status = .partialContent)
      (named : response.output.contentRange =
        some (contentRangeText first last (UInt64.ofNat content.length)))
      (length : response.output.contentLength.toInt = bytes.length)
      (ordered : first ≤ last) (inside : last.toNat < content.length)
      (span : bytes.length = last.toNat - first.toNat + 1)
      (shown : bytes = (content.drop first.toNat).take bytes.length)

/-- A get answers with an error or with a consistent response, and without a range with the whole
object. -/
def GetAnswered (content : Bytes) (range : Option S3Range) :
    Except S3Error (S3Response GetObjectOutput × Bytes) → Prop
  | .error _ => True
  | .ok (response, bytes) => SelfConsistent content response bytes ∧
      (range = none → response.status = .ok ∧ response.output.contentRange = none ∧ bytes = content)

theorem wp_served {Value State : Type} {sem : Semantics Call Reply State} {call : Op Value}
    {post : Except S3Error Value → State → Prop} {s : State} :
    wp sem (served call) post s ↔
      wp sem call (fun outcome after => post (outcome.mapError mapStorageErr) after) s :=
  wp_mapError

/-- Only an empty object or an empty suffix resolves to an empty window. -/
theorem resolved_empty {range : ByteRange} {size : UInt64} {resolved : ResolvedRange}
    (found : range.resolve size = some resolved) (empty : resolved.length = 0) :
    size = 0 ∨ range = .suffix 0 := by
  obtain ⟨first, past⟩ := resolve_bounds found
  rw [empty, UInt64.toNat_zero] at past
  have suffix : range.IsSuffix := by
    by_contra other
    have refused := (resolve_none_iff range size).mpr ⟨other, by omega⟩
    rw [found] at refused
    cases refused
  obtain ⟨n, rfl⟩ := suffix
  simp only [ByteRange.bounds] at first past
  rcases Nat.eq_zero_or_pos size.toNat with zero | positive
  · exact .inl (UInt64.toNat_inj.mp zero)
  · have nothing : n.toNat = (0 : UInt64).toNat := by
      rw [UInt64.toNat_zero]
      omega
    obtain rfl := UInt64.toNat_inj.mp nothing
    exact .inr rfl

theorem length_announced {n : UInt64} (small : n.toNat < 2 ^ 63) : n.toInt64.toInt = n.toNat := by
  have half : 2 * n.toBitVec.toNat < 2 ^ 64 := by
    change 2 * n.toNat < 2 ^ 64
    omega
  exact BitVec.toInt_eq_toNat_of_lt half

section Responses
variable {crates : Crates} {storage : FsStorage} {s : FS} {store : Store} {bucket key encoded : Str}
  {old : Bucket} {objectMeta : ObjectMeta} {content : Bytes}

/-- The response over a window with something in it. -/
theorem window_consistent {range : ByteRange} {resolved : ResolvedRange} {response : S3Response GetObjectOutput}
    (half : content.length < 2 ^ 63)
    (found : range.resolve (UInt64.ofNat content.length) = some resolved) (some_ : resolved.length > 0)
    (status : response.status = .partialContent)
    (named : response.output.contentRange = some (contentRangeText resolved.start
      (resolved.start + saturatingSub resolved.length 1) (UInt64.ofNat content.length)))
    (length : response.output.contentLength = resolved.length.toInt64) :
    SelfConsistent content response ((content.drop resolved.start.toNat).take resolved.length.toNat) := by
  have small : content.length < 2 ^ 64 := by omega
  have within := resolve_within found
  rw [UInt64.toNat_ofNat_of_lt' small] at within
  have positive : 0 < resolved.length.toNat := UInt64.lt_iff_toNat_lt.mp some_
  have one : (1 : UInt64) ≤ resolved.length := by
    rw [UInt64.le_iff_toNat_le, UInt64.toNat_one]
    exact positive
  have last : (resolved.start + saturatingSub resolved.length 1).toNat =
      resolved.start.toNat + resolved.length.toNat - 1 := by
    rw [saturatingSub, if_pos one, UInt64.toNat_add, u64_sub one, UInt64.toNat_one]
    omega
  have count : ((content.drop resolved.start.toNat).take resolved.length.toNat).length =
      resolved.length.toNat := by
    rw [List.length_take, List.length_drop]
    omega
  refine .part _ _ status named ?_ ?_ ?_ ?_ ?_
  · rw [length, length_announced (by omega), count]
  · rw [UInt64.le_iff_toNat_le, last]
    omega
  · omega
  · rw [count, last]
    omega
  · rw [count]

/-- Every response is consistent, but that to an empty suffix of an object that is not empty. -/
theorem responses_consistent_iff (range : Option S3Range) (holds : Holds crates storage s store)
    (present : store.buckets.lookup bucket = some old) (admitted : encodeKey key = .ok encoded)
    (short : exceeds s.nameMax (FsStorage.sidecarName encoded) = false)
    (stored : old.StoresAs encoded objectMeta content) (half : content.length < 2 ^ 63) :
    wp faultFree (s3Download crates storage bucket key range)
      (fun outcome _ => GetAnswered content range outcome) s ↔
    ¬ (range = some (.suffix 0) ∧ content ≠ []) := by
  obtain ⟨inode, held, opens⟩ := wp_getStored holds present admitted short stored
  have size : (UInt64.ofNat content.length).toNat = content.length :=
    UInt64.toNat_ofNat_of_lt' stored.small
  have announced : (UInt64.ofNat content.length).toInt64.toInt = content.length := by
    rw [length_announced (by omega), size]
  unfold s3Download s3GetObject
  rw [wp_bind, wp_bind, wp_served, opens]
  cases range with
  | none =>
      have never : ¬ ((none : Option S3Range) = some (.suffix 0) ∧ content ≠ []) := by rintro ⟨⟨⟩, _⟩
      simp only [Option.map_none, streamOutcome, Except.mapError, Option.bind_none, wp_bind, wp_served,
        wp_ioOp, wp_collect, held, Prog.pure_eq, wp_done, List.drop_zero, stored.size]
      simp only [never, not_false_iff, iff_true]
      exact ⟨.whole rfl rfl announced rfl, fun _ => ⟨rfl, rfl, rfl⟩⟩
  | some range =>
      simp only [Option.map_some, streamOutcome, stored.size, Option.bind_some]
      cases found : (s3RangeToByteRange range).resolve (UInt64.ofNat content.length) with
      | none =>
          have other : ¬ (some range = some (.suffix 0) ∧ content ≠ []) := by
            rintro ⟨same, _⟩
            obtain rfl := Option.some.inj same
            simp [s3RangeToByteRange, ByteRange.resolve] at found
          simp only [other, not_false_iff, iff_true]
          trivial
      | some resolved =>
          by_cases window : resolved.length > 0
          · have other : ¬ (some range = some (.suffix 0) ∧ content ≠ []) := by
              rintro ⟨same, _⟩
              obtain rfl := Option.some.inj same
              cases found
              have none : min 0 (UInt64.ofNat content.length) = 0 := by
                apply UInt64.toNat_inj.mp
                simp [u64_min]
              rw [none] at window
              exact UInt64.lt_irrefl 0 window
            simp only [other, not_false_iff, iff_true, Except.mapError, stored.size, found, if_pos window,
              Prog.pure_eq, wp_done, wp_bind, wp_served, wp_ioOp, wp_collect, held]
            exact ⟨window_consistent half found window rfl rfl rfl, by rintro ⟨⟩⟩
          · have zero : resolved.length = 0 := by
              apply UInt64.toNat_inj.mp
              have above := UInt64.not_lt.mp window
              rw [UInt64.le_iff_toNat_le] at above
              simpa using above
            simp only [Except.mapError, stored.size, found, Prog.pure_eq, wp_done, wp_bind,
              wp_served, wp_ioOp, wp_collect, zero, UInt64.toNat_zero]
            constructor
            · rintro ⟨consistent, _⟩ ⟨_, nonempty⟩
              cases consistent with
              | whole _ _ _ all => exact nonempty all.symm
              | part _ _ status => cases status
            · intro other
              have empty : content = [] := by
                by_contra nonempty
                rcases resolved_empty found zero with none | suffix
                · rw [none, UInt64.toNat_zero] at size
                  exact nonempty (List.length_eq_zero_iff.mp size.symm)
                · apply other
                  refine ⟨?_, nonempty⟩
                  cases range with
                  | int first last => cases last <;> cases suffix
                  | suffix length =>
                      cases suffix
                      rfl
              subst empty
              exact ⟨.whole rfl rfl announced rfl, by rintro ⟨⟩⟩

/-- An empty suffix is answered with no bytes under the length of the whole object. -/
theorem wp_emptySuffix (holds : Holds crates storage s store)
    (present : store.buckets.lookup bucket = some old) (admitted : encodeKey key = .ok encoded)
    (short : exceeds s.nameMax (FsStorage.sidecarName encoded) = false)
    (stored : old.StoresAs encoded objectMeta content) (half : content.length < 2 ^ 63) :
    wp faultFree (s3Download crates storage bucket key (some (.suffix 0)))
      (fun outcome _ => ∃ response, outcome = .ok (response, []) ∧
        response.output.contentLength.toInt = content.length) s := by
  obtain ⟨inode, held, opens⟩ := wp_getStored holds present admitted short stored
  have nothing : min 0 (UInt64.ofNat content.length) = 0 := by
    apply UInt64.toNat_inj.mp
    simp [u64_min]
  have found : (s3RangeToByteRange (.suffix 0)).resolve (UInt64.ofNat content.length) =
      some ⟨UInt64.ofNat content.length - 0, 0⟩ := by
    simp [s3RangeToByteRange, ByteRange.resolve, nothing]
  unfold s3Download s3GetObject
  rw [wp_bind, wp_bind, wp_served, opens]
  simp only [Option.map_some, streamOutcome, stored.size, found, Except.mapError, Option.bind_some,
    if_neg (UInt64.lt_irrefl 0), gt_iff_lt, Prog.pure_eq, wp_done, wp_bind, wp_served, wp_ioOp, wp_collect]
  refine ⟨_, rfl, ?_⟩
  have size : (UInt64.ofNat content.length).toNat = content.length :=
    UInt64.toNat_ofNat_of_lt' stored.small
  exact (length_announced (by omega)).trans (congrArg Nat.cast size)

end Responses

theorem responses_consistent_iff_photos : ∃ s store old objectMeta,
    Holds Crates.reference Reference.storage s store ∧
    store.buckets.lookup Reference.bucket = some old ∧
    old.StoresAs ['a'] objectMeta Reference.hello ∧
    wp faultFree (s3Download Crates.reference Reference.storage Reference.bucket ['a']
        (some (.int 1 (some 3))))
      (fun outcome _ => GetAnswered Reference.hello (some (.int 1 (some 3))) outcome) s := by
  obtain ⟨s, store, old, objectMeta, unlimited, holds, present, stored⟩ := Reference.hello_stored
  have admitted : encodeKey ['a'] = .ok ['a'] := by decide
  have iff := responses_consistent_iff (some (.int 1 (some 3))) holds present admitted
    (by rw [unlimited]; rfl) stored (by decide)
  refine ⟨s, store, old, objectMeta, holds, present, stored, iff.mpr ?_⟩
  rintro ⟨same, _⟩
  cases same

/-- The last no bytes of `hello`: five bytes are announced and none delivered. -/
theorem empty_suffix_announced : ∃ s store old objectMeta response t,
    Holds Crates.reference Reference.storage s store ∧
    store.buckets.lookup Reference.bucket = some old ∧
    old.StoresAs ['a'] objectMeta Reference.hello ∧
    Runs faultFree (s3Download Crates.reference Reference.storage Reference.bucket ['a']
      (some (.suffix 0))) s (.ok (response, [])) t ∧
    response.output.contentLength.toInt = 5 ∧
    ¬ GetAnswered Reference.hello (some (.suffix 0)) (.ok (response, [])) := by
  obtain ⟨s, store, old, objectMeta, unlimited, holds, present, stored⟩ := Reference.hello_stored
  have admitted : encodeKey ['a'] = .ok ['a'] := by decide
  obtain ⟨_, t, run, response, rfl, length⟩ := wp_returns (wp_emptySuffix holds present admitted
    (by rw [unlimited]; rfl) stored (by decide))
  refine ⟨s, store, old, objectMeta, response, t, holds, present, stored, run, length, ?_⟩
  rintro ⟨consistent, _⟩
  cases consistent with
  | whole _ _ _ all => exact absurd all (by decide)
  | part first last _ _ _ _ _ span => simp at span

end Ferrobucket
