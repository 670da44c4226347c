import Ferrobucket.Linearizable
/-! What a put or a delete has left when it has answered. Other calls on the object may have
stopped forever anywhere, between the body and the sidecar for instance: once a write has
answered, both files are those that it leaves, until the next one begins. -/
namespace Ferrobucket
open Text Posix Program

/-! ### Writes and reads -/

namespace Access

def isWrite : Access → Bool
  | .putObject _ _ _ _ | .deleteObject _ _ => true
  | .headObject _ _ | .getObject _ _ _ => false

/-- The version of the object that a write with this answer leaves. -/
def leaves : Access → Received → Option (ObjectMeta × Bytes)
  | .putObject _ _ body _, .object objectMeta => some (objectMeta, delivered body)
  | _, _ => none

/-- The answer of a write: a put gives the record of its body. -/
def Confirms (crates : Crates) : Access → Received → Prop
  | .putObject _ key body contentType, answer =>
      ∃ time, answer = .object (writtenRecord crates key body contentType time)
  | .deleteObject _ _, answer => answer = .done
  | _, _ => False

/-- The answer of a head or a get where this version is stored. -/
def Finds (storage : FsStorage) (encoded : Str) (version : Option (ObjectMeta × Bytes)) :
    Access → Except StorageError Received → Prop
  | .headObject bucket _, outcome => match version with
      | none => outcome = .error (.NoSuchKey (storage.metaPath bucket encoded).display)
      | some (objectMeta, _) => outcome = .ok (.object objectMeta)
  | .getObject bucket _ range, outcome => match version with
      | none => outcome = .error (.NoSuchKey (storage.metaPath bucket encoded).display)
      | some (objectMeta, content) => match rangeWindow range objectMeta.size content with
          | none => outcome = .error .RangeNotSatisfiable
          | some bytes => outcome = .ok (.stream objectMeta bytes true)
  | _, _ => False

end Access

section Calls
variable {crates : Crates} {storage : FsStorage} {encoded : Str} {access : Access} {answered : Received}
  {answers : Except StorageError Received → Prop} {before after : Option ObjectMeta}
  {found left : Option Bytes} {outcome : Except StorageError Received}

/-- A head or a get leaves the record as it is. -/
theorem record_still (reads : access.isWrite = false)
    (takes : access.OnRecord crates storage encoded answers before after) : after = before := by
  cases access with
  | putObject bucket key body contentType => cases reads
  | deleteObject bucket key => cases reads
  | headObject bucket key => exact takes.1
  | getObject bucket key range => exact takes.1

theorem body_still (reads : access.isWrite = false)
    (takes : access.OnBody crates storage encoded answers found left) : left = found := by
  cases access with
  | putObject bucket key body contentType => cases reads
  | deleteObject bucket key => cases reads
  | headObject bucket key => exact takes.elim
  | getObject bucket key range => exact takes.1

theorem record_left (writes : access.isWrite = true) (answer : answers (.ok answered))
    (takes : access.OnRecord crates storage encoded answers before after) :
    after = (access.leaves answered).map Prod.fst ∧ access.Confirms crates answered := by
  cases access with
  | putObject bucket key body contentType =>
      obtain ⟨_, time, rfl, tells⟩ := takes
      obtain rfl := Except.ok.inj (tells _ answer)
      exact ⟨rfl, time, rfl⟩
  | deleteObject bucket key =>
      obtain ⟨rfl, tells⟩ := takes
      exact ⟨rfl, Except.ok.inj (tells _ answer)⟩
  | headObject bucket key => cases writes
  | getObject bucket key range => cases writes

theorem body_left (writes : access.isWrite = true) (answer : answers (.ok answered))
    (takes : access.OnBody crates storage encoded answers found left) :
    left = (access.leaves answered).map Prod.snd := by
  cases access with
  | putObject bucket key body contentType =>
      obtain ⟨_, rfl, tells⟩ := takes
      obtain ⟨time, same⟩ := tells _ answer
      obtain rfl := Except.ok.inj same
      rfl
  | deleteObject bucket key => exact takes.1
  | headObject bucket key => cases writes
  | getObject bucket key range => cases writes

/-- A head or a get that finds the two files of one version. -/
theorem finds_version {version : Option (ObjectMeta × Bytes)} (reads : access.isWrite = false)
    (answer : answers outcome)
    (record : access.OnRecord crates storage encoded answers (version.map Prod.fst) after)
    (body : access.UsesBody storage encoded outcome → ∃ left,
      access.OnBody crates storage encoded answers (version.map Prod.snd) left) :
    access.Finds storage encoded version outcome := by
  cases access with
  | putObject bucket key body contentType => cases reads
  | deleteObject bucket key => cases reads
  | headObject bucket key =>
      cases version with
      | none => exact record.2 _ answer
      | some found => exact record.2 _ answer
  | getObject bucket key range =>
      cases version with
      | none => exact record.2 _ answer
      | some found =>
          obtain ⟨objectMeta, content⟩ := found
          have told := record.2 _ answer
          simp only [Option.map_some] at told
          cases window : rangeWindow range objectMeta.size content with
          | none =>
              have shut : opensBody range objectMeta = false := by
                cases range with
                | none => cases window
                | some byteRange =>
                    simp only [rangeWindow, Option.map_eq_none_iff] at window
                    simp [opensBody, rangeWindow, window]
              simpa [Access.Finds, window, shut] using told
          | some bytes =>
              have opens : opensBody range objectMeta = true := by
                cases range with
                | none => rfl
                | some byteRange =>
                    obtain ⟨resolved, same, _⟩ := Option.map_eq_some_iff.mp window
                    simp [opensBody, rangeWindow, same]
              rw [if_pos opens] at told
              -- Whether it found the body or missed it, the get has come to it.
              have used : Access.UsesBody storage encoded (.getObject bucket key range) outcome := by
                rcases told with missed | ⟨_, shown⟩
                · exact .inr missed
                · exact .inl (by rw [shown]; rfl)
              obtain ⟨_, _, tells⟩ := body used
              obtain ⟨own, shown, same, piece⟩ := tells _ answer
              rcases told with missed | ⟨_, whole⟩
              · rw [missed] at same
                cases same
              · obtain ⟨rfl, rfl, _⟩ := Received.stream.inj (Except.ok.inj (whole.symm.trans same))
                rw [window, Option.some.injEq] at piece
                subst piece
                simpa [Access.Finds, window] using same

end Calls

/-! ### Runs -/

section Runs
variable {Thread : Type} [DecidableEq Thread] {crates : Crates} {storage : FsStorage} {start t : FS}
  {store : Store} {accesses : Thread → Access} {last : Thread → Op Received}
  {events : List (Event Thread Reply)} {bucket key encoded : Str} {found : Bucket}
  {sidecars : Names ObjectMeta} {writer reader : Thread}

/-- The other writes on the object. -/
structure Rival (accesses : Thread → Access) (bucket key : Str) (writer other : Thread) : Prop where
  different : other ≠ writer
  same : CallsOn accesses bucket key other
  writes : (accesses other).isWrite = true

/-- A put or a delete that has answered has left both files of its version, whatever calls had
stopped halfway before it. They are there until another write begins, and every head and get
until then answers from that one version. -/
theorem acknowledged_stands (holds : Holds crates storage start store) (tree : start.Tree)
    (run : Interleaves (fun _ => faultFree) (fun thread => (accesses thread).program crates storage)
      start events last t)
    (present : store.buckets.lookup bucket = some found) (kept : found.sidecars = some sidecars)
    (admitted : encodeKey key = .ok encoded) (nonempty : key ≠ [])
    (short : exceeds start.nameMax (FsStorage.sidecarName encoded) = false)
    (own : CallsOn accesses bucket key writer) (writes : (accesses writer).isWrite = true)
    {answered : Received} (acknowledged : last writer = ended (.ok answered)) :
    (accesses writer).Confirms crates answered ∧
    ((∀ other, Rival accesses bucket key writer other → Precedes events other writer) →
      t.look (sidecarPlace storage bucket encoded) =
        recordEntry crates (((accesses writer).leaves answered).map Prod.fst) ∧
      t.look (bodyPlace storage bucket encoded) =
        bodyEntry (((accesses writer).leaves answered).map Prod.snd)) ∧
    ∀ reader outcome, CallsOn accesses bucket key reader → (accesses reader).isWrite = false →
      last reader = ended outcome → Precedes events writer reader →
      (∀ other, Rival accesses bucket key writer other →
        Precedes events other writer ∨ Precedes events reader other) →
      (accesses reader).Finds storage encoded ((accesses writer).leaves answered) outcome := by
  obtain ⟨order, final, records, recorded⟩ :=
    records_linearizable holds tree run present kept admitted nonempty short
  obtain ⟨row, body, bodies, stored⟩ :=
    bodies_linearizable holds tree run present kept admitted nonempty short
  have inOrder : writer ∈ order := records.all writer ⟨own, _, acknowledged, by
    cases same : accesses writer with
    | putObject | deleteObject => rfl
    | headObject | getObject => trivial⟩
  have inRow : writer ∈ row := bodies.all writer ⟨own, _, acknowledged, by
    cases same : accesses writer with
    | putObject => rfl
    | deleteObject => trivial
    | headObject | getObject =>
        rw [same] at writes
        cases writes⟩
  refine ⟨?_, ?_, ?_⟩
  · obtain ⟨front, back, rfl⟩ := List.append_of_mem inOrder
    obtain ⟨_, _, rest⟩ := replays_append records.replays
    cases rest with
    | cons first _ => exact (record_left writes acknowledged first).2
  · intro alone
    have calm : ∀ {other}, CallsOn accesses bucket key other → other ≠ writer →
        Precedes events other writer ∨ (accesses other).isWrite = false := by
      intro other same different
      cases rival : (accesses other).isWrite with
      | true => exact .inl (alone other ⟨different, same, rival⟩)
      | false => exact .inr rfl
    obtain ⟨_, written⟩ := history_stands records inOrder fun other member different =>
      (calm (records.own other member) different).imp_right fun reads _ _ => record_still reads
    obtain ⟨_, put⟩ := history_stands bodies inRow fun other member different =>
      (calm (bodies.own other member) different).imp_right fun reads _ _ => body_still reads
    rw [recorded, stored, (record_left writes acknowledged written).1, body_left writes acknowledged put]
    exact ⟨rfl, rfl⟩
  · intro reader outcome on reads concluded earlier alone
    have different : reader ≠ writer := by
      rintro rfl
      exact Bool.false_ne_true (reads.symm.trans writes)
    have calm : ∀ {other}, CallsOn accesses bucket key other → other ≠ writer →
        Precedes events other writer ∨ Precedes events reader other ∨ (accesses other).isWrite = false := by
      intro other same different
      cases rival : (accesses other).isWrite with
      | true => exact (alone other ⟨different, same, rival⟩).imp_right .inl
      | false => exact .inr (.inr rfl)
    have asked : reader ∈ order := records.all reader ⟨on, outcome, concluded, by
      cases same : accesses reader with
      | putObject | deleteObject =>
          rw [same] at reads
          cases reads
      | headObject | getObject => trivial⟩
    obtain ⟨_, _, _, written, read⟩ := history_read records inOrder asked different earlier
      fun other member apart => (calm (records.own other member) apart).imp_right fun later =>
        later.imp_right fun reads _ _ => record_still reads
    obtain rfl := (record_left writes acknowledged written).1
    refine finds_version reads concluded read fun used => ?_
    obtain ⟨_, _, _, put, opened⟩ := history_read bodies inRow (bodies.all reader ⟨on, outcome, concluded, used⟩)
      different earlier fun other member apart => (calm (bodies.own other member) apart).imp_right fun later =>
        later.imp_right fun reads _ _ => body_still reads
    obtain rfl := body_left writes acknowledged put
    exact ⟨_, opened⟩

/-- A put of `a`, and then a head. -/
theorem acknowledged_stands_photo : ∃ (t : FS) (objectMeta : ObjectMeta) (outcome : Except StorageError Received),
    t.look (bodyPlace Reference.storage Reference.bucket ['a']) = some (.file [1]) ∧
      (photoAccesses false).Finds Reference.storage ['a'] (some (objectMeta, [1])) outcome := by
  obtain ⟨events, last, t, run, finished, ⟨objectMeta, acknowledged⟩, earlier⟩ := photo_accesses_run
  obtain ⟨outcome, concluded⟩ := finished false
  have rivals : ∀ other, ¬ Rival photoAccesses Reference.bucket ['a'] true other := by
    rintro other ⟨different, _, writes⟩
    cases other with
    | false => cases writes
    | true => exact different rfl
  obtain ⟨_, stored, found⟩ := acknowledged_stands Reference.bucketDisk_holds Reference.bucketDisk_tree run
    (Finmap.lookup_insert _) rfl (by decide : encodeKey ['a'] = .ok ['a']) (List.cons_ne_nil _ _) rfl
    ⟨rfl, rfl⟩ rfl acknowledged
  refine ⟨t, objectMeta, outcome, (stored fun other rival => absurd rival (rivals other)).2, ?_⟩
  exact found false outcome ⟨rfl, rfl⟩ rfl concluded earlier fun other rival => absurd rival (rivals other)

end Runs
end Ferrobucket
