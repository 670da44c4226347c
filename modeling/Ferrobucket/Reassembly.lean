import Ferrobucket.BrowserUpload
/-! The runs of a multipart upload of the browser. What the loop over the parts has posted is always a
front of the file, and the server has collected just that; completing makes the file of it. -/
namespace Ferrobucket
open Text Posix Program Url

namespace UploadIsland

/-! ### The requests of a run -/

abbrev Events := List (Program.Answer Browser BrowserReply)

/-- The parts that the server is posted, in their order. -/
def posted (form : FormDecoder) (events : Events) : List (Int × Bytes) :=
  (fetches events).filterMap (postedPart form)

def numbered (file : Bytes) (number : Nat) : Int × Bytes := (number, part file number)

theorem fetches_fetch (url : Str) (body : Option Bytes) (reached : Reached) (later : Events) :
    fetches (⟨.fetch url body, reached⟩ :: later) = ⟨url, body, reached⟩ :: fetches later := rfl

theorem fetches_append (first second : Events) :
    fetches (first ++ second) = fetches first ++ fetches second := List.filterMap_append

theorem posted_append (form : FormDecoder) (first second : Events) :
    posted form (first ++ second) = posted form first ++ posted form second := by
  rw [posted, fetches_append, List.filterMap_append]
  rfl

section Targets
variable {form : FormDecoder} {fetch : Fetch} {target : UploadTarget}

theorem posted_none (found : uploadTarget form fetch.url = some target)
    (unnumbered : target.params.partNumber = none) : postedPart form fetch = none := by
  simp [postedPart, found, unnumbered]

theorem posted_some {url : Str} {chunk : Bytes} {reached : Reached} {number : Int32}
    (found : uploadTarget form url = some target) (given : target.params.partNumber = some number) :
    postedPart form ⟨url, some chunk, reached⟩ = some (number.toInt, chunk) := by
  simp [postedPart, found, given]

theorem completes_action (found : uploadTarget form fetch.url = some target) :
    Completes form fetch ↔ target.params.action = some "complete".toList := by
  constructor
  · rintro ⟨other, same, completes⟩
    obtain rfl := Option.some.inj (found.symm.trans same)
    exact completes
  · intro completes
    exact ⟨target, found, completes⟩

end Targets

section Posting
variable {form : FormDecoder} {crates : Crates} {storage : FsStorage} {web : WebCrates} {file : Bytes}
  {s t : FS} {events : Events} {Result : Type}

theorem traced_post {url : Str} {body : Option Bytes} {rest : Except Unit Str → Task Result}
    {outcome : Except Empty Result}
    (run : Traced (online form crates storage web file) (post url body >>= rest) s events outcome t) :
    ∃ reached middle later, events = ⟨.fetch url body, reached⟩ :: later ∧
      Handled form crates storage web url body s reached middle ∧
      Traced (online form crates storage web file) (rest (received reached)) middle later outcome t :=
  traced_call run

theorem slice_part (file : Bytes) (number : Nat) :
    (file.drop (sliceStart number)).take (sliceStop file.length number - sliceStart number) =
      part file number := rfl

/-- One turn of the loop: a slice, a label and a request. -/
theorem traced_part {number : Nat} {bucket key uploadId : Str} {rest : List Nat}
    {partNumbers : List Int32} {outcome : Except Empty (Option (List Int32))}
    (run : Traced (online form crates storage web file)
      (uploadParts file.length bucket key uploadId (number :: rest) partNumbers) s events outcome t) :
    ∃ reached middle later,
      fetches events =
        ⟨partUrl bucket key uploadId number, some (part file number), reached⟩ :: fetches later ∧
      Handled form crates storage web (partUrl bucket key uploadId number) (some (part file number)) s
        reached middle ∧
      Traced (online form crates storage web file)
        (match received reached with
        | .error _ => pure none
        | .ok _ => uploadParts file.length bucket key uploadId rest (partNumbers ++ [Int32.ofNat number]))
        middle later outcome t := by
  rw [uploadParts] at run
  obtain ⟨chunk, _, _, rfl, ⟨rfl, rfl⟩, sliced⟩ := traced_call run
  obtain ⟨_, _, _, rfl, rfl, labelled⟩ := traced_call sliced
  obtain ⟨reached, middle, later, rfl, handled, ended⟩ := traced_post labelled
  rw [slice_part] at handled
  refine ⟨reached, middle, later, ?_, handled, ended⟩
  rw [← slice_part]
  rfl

end Posting

/-! ### The loop over the parts -/

section Loop
variable (form : FormDecoder) (crates : Crates) (storage : FsStorage) (buckets : Names Bucket)
  (bucket uploadId : Str) (file : Bytes)

/-- What the loop has posted and left behind when it ends. -/
structure PartsSent (before numbers : List Nat) (partNumbers : List Int32) (events : Events)
    (result : Option (List Int32)) (t : FS) : Prop where
  front : posted form events <+: numbers.map (numbered file)
  incomplete : ∀ fetch ∈ fetches events, ¬ Completes form fetch
  only : OnlyUploads crates storage buckets t
  broken : result = none → ∃ fetch ∈ fetches events, ¬ fetch.Succeeded
  finished : ∀ found, result = some found → found = partNumbers ++ numbers.map Int32.ofNat ∧
    posted form events = numbers.map (numbered file) ∧ (∀ fetch ∈ fetches events, fetch.Succeeded) ∧
    Collected crates storage buckets bucket uploadId file (before ++ numbers) t

variable {form crates storage buckets bucket uploadId file} {web : WebCrates} {key : Str} {s t : FS}
  {events : Events}

theorem parts_sent {before numbers : List Nat} {partNumbers : List Int32}
    {result : Option (List Int32)} (valid : validateBucketName bucket = .ok ()) (verbatim : Verbatim key)
    (small : ∀ number ∈ numbers, number < 2 ^ 31)
    (collected : Collected crates storage buckets bucket uploadId file before s)
    (run : Traced (online form crates storage web file)
      (uploadParts file.length bucket key uploadId numbers partNumbers) s events (.ok result) t) :
    PartsSent form crates storage buckets bucket uploadId file before numbers partNumbers events
      result t := by
  induction numbers generalizing before partNumbers s events with
  | nil =>
      obtain ⟨rfl, same, rfl⟩ := traced_done run
      cases same
      refine ⟨List.nil_prefix, (fun _ member => nomatch member), collected_only collected,
        (fun broken => nomatch broken), fun found same => ?_⟩
      cases same
      exact ⟨(List.append_nil _).symm, rfl, (fun _ member => nomatch member), by simpa using collected⟩
  | cons number rest ih =>
      have own := small number List.mem_cons_self
      have target := part_target form valid verbatim (collected_uuid collected) own
      obtain ⟨reached, middle, later, shape, handled, ended⟩ := traced_part run
      obtain ⟨kept, more⟩ := part_handled valid verbatim collected own handled
      have taken : postedPart form ⟨partUrl bucket key uploadId number, some (part file number), reached⟩ =
          some (numbered file number) := by
        rw [posted_some target rfl, int32_small own, numbered]
      have incomplete : ¬ Completes form
          ⟨partUrl bucket key uploadId number, some (part file number), reached⟩ := by
        rw [completes_action target]
        simp
      cases answer : received reached with
      | error e =>
          -- The loop ends here, with the part posted or not.
          rw [answer] at ended
          obtain ⟨rfl, same, rfl⟩ := traced_done ended
          cases same
          have failing : ¬ Fetch.Succeeded
              ⟨partUrl bucket key uploadId number, some (part file number), reached⟩ := by
            rintro ⟨text, ok⟩
            rw [answer] at ok
            cases ok
          refine ⟨?_, ?_, collected_only kept, ?_, fun found same => nomatch same⟩
          · rw [posted, shape, List.filterMap_cons_some taken]
            exact List.prefix_append [numbered file number] (rest.map (numbered file))
          · rw [shape]
            intro fetch member
            obtain rfl := List.mem_singleton.mp member
            exact incomplete
          · rw [shape]
            exact fun _ => ⟨_, List.mem_cons_self, failing⟩
      | ok text =>
          rw [answer] at ended
          have sent := ih (fun other member => small other (List.mem_cons_of_mem number member))
            (more text answer) ended
          have front : posted form events = numbered file number :: posted form later := by
            rw [posted, shape, List.filterMap_cons_some taken]
            rfl
          refine ⟨?_, ?_, sent.only, ?_, ?_⟩
          · rw [front]
            exact List.cons_prefix_cons.mpr ⟨rfl, sent.front⟩
          · rw [shape]
            exact List.forall_mem_cons.mpr ⟨incomplete, sent.incomplete⟩
          · intro none
            obtain ⟨fetch, member, failing⟩ := sent.broken none
            rw [shape]
            exact ⟨fetch, List.mem_cons_of_mem _ member, failing⟩
          · intro found some
            obtain ⟨rfl, all, succeeded, collected⟩ := sent.finished found some
            refine ⟨by simp, by rw [front, all]; rfl, ?_, by simpa using collected⟩
            rw [shape]
            exact List.forall_mem_cons.mpr ⟨⟨text, answer⟩, succeeded⟩

end Loop

/-! ### The whole upload -/

def slices (file : Bytes) : List (Int × Bytes) :=
  (List.range' 1 (numParts file.length)).map (numbered file)

section Whole
variable (form : FormDecoder) (crates : Crates) (storage : FsStorage) (bucket key : Str) (file : Bytes)

/-- The slices of a file are posted in order. Where all requests succeed the object is the file, and
where one for a part fails nothing is completed and the bucket is as it was. -/
structure Reassembles (s : FS) (events : Events) (status : UploadStatus) (t : FS) : Prop where
  front : posted form events <+: slices file
  all : status = .done → posted form events = slices file
  succeeds : (∀ fetch ∈ fetches events, fetch.Succeeded) → status = .done
  whole : status = .done → wp faultFree (fetchObject crates storage bucket key) (fun outcome _ =>
    ∃ objectMeta, outcome = .ok (objectMeta, file)) t
  untouched : (∃ fetch ∈ fetches events, (postedPart form fetch).isSome = true ∧ ¬ fetch.Succeeded) →
    (∀ fetch ∈ fetches events, ¬ Completes form fetch) ∧ status = .error ∧
    ∀ inner, under storage.dataRoot t.look (bucket :: inner) =
      under storage.dataRoot s.look (bucket :: inner)

variable {form crates storage bucket key file} {web : WebCrates} {s t : FS} {events : Events}

theorem only_uploads_same {store : Store} (holds : Holds crates storage s store)
    (valid : validateBucketName bucket = .ok ()) (only : OnlyUploads crates storage store.buckets t)
    (inner : List Str) :
    under storage.dataRoot t.look (bucket :: inner) = under storage.dataRoot s.look (bucket :: inner) := by
  obtain ⟨after, still, same⟩ := only
  rw [still.seen, holds.seen, view_bucket (bucket_not_uploads valid),
    view_bucket (bucket_not_uploads valid), same]

/-- Without an upload id nothing is posted. -/
theorem reassembles_refused {created : Fetch} (shape : fetches events = [created])
    (unnumbered : postedPart form created = none) (failing : ¬ created.Succeeded) :
    Reassembles form crates storage bucket key file s events .error t := by
  have nothing : posted form events = [] := by
    rw [posted, shape, List.filterMap_cons_none unnumbered]
    rfl
  refine ⟨?_, (fun same => nomatch same), ?_, (fun same => nomatch same), ?_⟩
  · rw [nothing]
    exact List.nil_prefix
  · intro all
    rw [shape] at all
    exact absurd (all created List.mem_cons_self) failing
  · rintro ⟨fetch, member, numbered, _⟩
    rw [shape] at member
    rw [List.mem_singleton.mp member, unnumbered] at numbered
    cases numbered

/-- A part that fails ends the upload, whatever becomes of aborting it. -/
theorem reassembles_aborted {store : Store} {bucket' uploadId : Str} {inside : Events} {middle : FS}
    {created aborted : Fetch} {before : List Nat} {partNumbers : List Int32}
    (holds : Holds crates storage s store) (valid : validateBucketName bucket = .ok ())
    (shape : fetches events = created :: (fetches inside ++ [aborted]))
    (quiet : ∀ fetch ∈ [created, aborted], postedPart form fetch = none ∧ ¬ Completes form fetch)
    (sent : PartsSent form crates storage store.buckets bucket' uploadId file before
      (List.range' 1 (numParts file.length)) partNumbers inside none middle)
    (only : OnlyUploads crates storage store.buckets t) :
    Reassembles form crates storage bucket key file s events .error t := by
  obtain ⟨first, last⟩ : (_ ∧ _) ∧ (_ ∧ _) := by simpa using quiet
  have same : posted form events = posted form inside := by
    rw [posted, shape, List.filterMap_cons_none first.1, List.filterMap_append,
      List.filterMap_cons_none last.1]
    exact List.append_nil _
  refine ⟨?_, (fun same => nomatch same), ?_, (fun same => nomatch same), fun _ => ⟨?_, rfl, ?_⟩⟩
  · rw [same]
    exact sent.front
  · intro all
    obtain ⟨fetch, member, failing⟩ := sent.broken rfl
    rw [shape] at all
    exact absurd (all fetch (List.mem_cons_of_mem _ (List.mem_append_left _ member))) failing
  · rw [shape]
    intro fetch member
    rcases List.mem_cons.mp member with rfl | inner
    · exact first.2
    · rcases List.mem_append.mp inner with part | final
      · exact sent.incomplete fetch part
      · obtain rfl := List.mem_singleton.mp final
        exact last.2
  · exact only_uploads_same holds valid only

/-- With all parts sent, the upload stands and falls with its completion. -/
theorem reassembles_completed {buckets : Names Bucket} {bucket' uploadId : Str} {inside : Events}
    {middle : FS} {created completed : Fetch} {before : List Nat} {partNumbers found : List Int32}
    {status : UploadStatus} (shape : fetches events = created :: (fetches inside ++ [completed]))
    (first : postedPart form created = none) (last : postedPart form completed = none)
    (started : created.Succeeded)
    (sent : PartsSent form crates storage buckets bucket' uploadId file before
      (List.range' 1 (numParts file.length)) partNumbers inside (some found) middle)
    (decides : completed.Succeeded → status = .done)
    (stored : status = .done → wp faultFree (fetchObject crates storage bucket key) (fun outcome _ =>
      ∃ objectMeta, outcome = .ok (objectMeta, file)) t) :
    Reassembles form crates storage bucket key file s events status t := by
  obtain ⟨_, all, succeeded, _⟩ := sent.finished found rfl
  have same : posted form events = slices file := by
    rw [posted, shape, List.filterMap_cons_none first, List.filterMap_append,
      List.filterMap_cons_none last, ← posted, all]
    exact List.append_nil _
  refine ⟨?_, fun _ => same, ?_, stored, ?_⟩
  · rw [same]
  · intro fine
    rw [shape] at fine
    exact decides (fine completed (List.mem_cons_of_mem _ (List.mem_append_right _ List.mem_cons_self)))
  · rintro ⟨fetch, member, numbered, failing⟩
    rw [shape] at member
    rcases List.mem_cons.mp member with rfl | inner
    · exact absurd started failing
    · rcases List.mem_append.mp inner with part | final
      · exact absurd (succeeded fetch part) failing
      · rw [List.mem_singleton.mp final, last] at numbered
        cases numbered

theorem create_quiet (form : FormDecoder) (valid : validateBucketName bucket = .ok ())
    (plain : ∀ c ∈ key, isUnreserved c = true ∨ c = '/') (body : Option Bytes) (reached : Reached) :
    postedPart form ⟨createUrl bucket key, body, reached⟩ = none ∧
      ¬ Completes form ⟨createUrl bucket key, body, reached⟩ := by
  by_cases empty : key = []
  · subst empty
    have nowhere := empty_key_nowhere form valid
    refine ⟨by simp [postedPart, nowhere], ?_⟩
    rintro ⟨target, found, _⟩
    rw [nowhere] at found
    cases found
  · have target := create_target form valid (key_verbatim empty plain)
    have other : ¬ some "create".toList = some "complete".toList := by decide
    refine ⟨posted_none target rfl, ?_⟩
    rw [completes_action target]
    exact other

theorem part_range_small (large : partSizeBytes < file.length) (exact : file.length < 2 ^ 53) :
    ∀ number ∈ List.range' 1 (numParts file.length), 1 ≤ number ∧ number < 2 ^ 31 := by
  intro number member
  have few := (num_parts_count large exact).2
  rw [List.mem_range'_1] at member
  omega

theorem started_reassembles {store : Store} {id : Str} {created : Fetch} {first : FS} {later : Events}
    {status : UploadStatus} (holds : Holds crates storage s store)
    (valid : validateBucketName bucket = .ok ()) (verbatim : Verbatim key)
    (large : partSizeBytes < file.length) (exact : file.length < 2 ^ 53) (reads : ReadsJson web)
    (shape : fetches events = created :: fetches later) (started : created.Succeeded)
    (quiet : postedPart form created = none ∧ ¬ Completes form created)
    (collected : Collected crates storage store.buckets bucket id file [] first)
    (run : Traced (online form crates storage web file) (uploadCreated file.length bucket key id) first later
      (.ok status) t) : Reassembles form crates storage bucket key file s events status t := by
  have uuid := collected_uuid collected
  have small := part_range_small large exact
  rcases traced_bind run with ⟨result, middle, inside, tail, rfl, loop, ended⟩ | ⟨error, same, _⟩
  swap
  · cases same
  have sent := parts_sent valid verbatim (fun number member => (small number member).2) collected loop
  rw [fetches_append] at shape
  cases result with
  | none =>
      obtain ⟨answer, last, nothing, rfl, aborting, settled⟩ := traced_post ended
      obtain ⟨rfl, same, rfl⟩ := traced_done settled
      cases same
      have target := abort_target form valid verbatim uuid
      have other : ¬ some "abort".toList = some "complete".toList := by decide
      have last : postedPart form ⟨abortUrl bucket key id, none, answer⟩ = none ∧
          ¬ Completes form ⟨abortUrl bucket key id, none, answer⟩ := by
        refine ⟨posted_none target rfl, ?_⟩
        rw [completes_action target]
        exact other
      apply reassembles_aborted holds valid shape _ sent
        (abort_handled valid verbatim uuid sent.only aborting)
      exact List.forall_mem_cons.mpr ⟨quiet, List.forall_mem_singleton.mpr last⟩
  | some found =>
      obtain ⟨numbers, _, _, whole⟩ := sent.finished found rfl
      rw [List.nil_append] at numbers whole
      subst numbers
      obtain ⟨answer, last, nothing, rfl, completing, settled⟩ := traced_post ended
      have target := complete_target form valid verbatim uuid
      have last : ∀ body, postedPart form ⟨completeUrl bucket key id, body, answer⟩ = none :=
        fun body => posted_none target rfl
      cases answered : received answer with
      | error e =>
          rw [answered] at settled
          obtain ⟨rfl, same, rfl⟩ := traced_done settled
          cases same
          apply reassembles_completed shape quiet.1 (last _) started sent
          · rintro ⟨text, ok⟩
            rw [answered] at ok
            cases ok
          · intro same
            cases same
      | ok text =>
          rw [answered] at settled
          obtain ⟨rfl, same, rfl⟩ := traced_done settled
          cases same
          apply reassembles_completed shape quiet.1 (last _) started sent (fun _ => rfl)
          intro _
          have ascending : (List.range' 1 (numParts file.length)).Pairwise (· ≤ ·) :=
            List.pairwise_le_range' 1
          have stored := complete_handled reads valid verbatim ascending small whole completing answered
          rw [(file_tiled large exact).whole] at stored
          exact stored

theorem upload_reassembles {store : Store} {old : Bucket} {status : UploadStatus}
    (holds : Holds crates storage s store) (present : store.buckets.lookup bucket = some old)
    (plain : ∀ c ∈ key, isUnreserved c = true ∨ c = '/') (large : partSizeBytes < file.length)
    (exact : file.length < 2 ^ 53) (reads : ReadsJson web)
    (run : Traced (online form crates storage web file) (uploadMultipart file.length bucket key) s events
      (.ok status) t) : Reassembles form crates storage bucket key file s events status t := by
  have valid := (holds.sound.buckets bucket old present).valid
  obtain ⟨reached, first, later, rfl, handled, ended⟩ := traced_post run
  have quiet := create_quiet form valid plain none reached
  cases created : received reached with
  | error e =>
      rw [created] at ended
      obtain ⟨rfl, same, rfl⟩ := traced_done ended
      cases same
      apply reassembles_refused rfl quiet.1
      rintro ⟨text, ok⟩
      rw [created] at ok
      cases ok
  | ok id =>
      rw [created] at ended
      by_cases empty : key = []
      · -- The route has no empty key, so nothing has answered.
        subst empty
        have lost := (handled_nowhere (empty_key_nowhere form valid) handled).1
        rw [created] at lost
        cases lost
      · have verbatim := key_verbatim empty plain
        have collected : Collected crates storage store.buckets bucket id file [] first :=
          (create_handled holds valid verbatim handled).2 id created
        simp only [uuid_trimmed (collected_uuid collected)] at ended
        exact started_reassembles holds valid verbatim large exact reads (fetches_fetch _ _ _ _)
          ⟨id, created⟩ quiet collected ended

end Whole

end UploadIsland

/-! ### A file of two slices -/

namespace Reference

/-- The numbers between the brackets of a list. -/
def listed (inner : Str) : Option (List Int32) :=
  if inner.isEmpty then some [] else (inner.splitOn ',').mapM parseI32

def partsFromJson (bytes : Bytes) : Except Str (List Int32) :=
  match fromUtf8 bytes with
  | some ('[' :: rest) =>
      if rest.getLast? = some ']' then
        match listed rest.dropLast with
        | some numbers => .ok numbers
        | none => .error "invalid number".toList
      else .error "expected a bracket".toList
  | _ => .error "expected a list".toList

def web : WebCrates := ⟨texts, fun _ => "broken".toList, "too large".toList, partsFromJson⟩

theorem number_read {number : Int32} (positive : 0 < number.toInt) :
    parseI32 (toString number.toInt).toList = some number := by
  obtain ⟨n, same⟩ := Int.eq_ofNat_of_zero_le positive.le
  have small := Int32.toInt_lt number
  rw [same] at small ⊢
  have read := parse_decimal n
  rw [if_pos (by omega)] at read
  have back : Int32.ofInt n = number := by rw [← same, Int32.ofInt_toInt]
  rw [back] at read
  exact read

theorem number_no_comma {number : Int32} (positive : 0 < number.toInt) :
    ',' ∉ (toString number.toInt).toList := by
  intro member
  obtain ⟨n, same⟩ := Int.eq_ofNat_of_zero_le positive.le
  rw [same] at member
  have digit : ','.isDigit = true := by
    have digits : ',' ∈ (toString n).toList := member
    rw [Nat.toString_eq_ofList_toDigits, String.toList_ofList] at digits
    exact Nat.isDigit_of_mem_toDigits (by omega) (le_refl 10) digits
  cases digit

theorem listed_numbers {numbers : List Int32} (positive : ∀ number ∈ numbers, 0 < number.toInt) :
    listed ([','].intercalate (numbers.map fun n => (toString n.toInt).toList)) = some numbers := by
  have read : (numbers.map fun n => (toString n.toInt).toList).mapM parseI32 = some numbers := by
    induction numbers with
    | nil => rfl
    | cons number rest ih =>
        have first := number_read (positive number List.mem_cons_self)
        have later := ih fun other member => positive other (List.mem_cons_of_mem number member)
        rw [List.map_cons, List.mapM_cons, first, later]
        rfl
  cases numbers with
  | nil => rfl
  | cons number rest =>
      have split : ([','].intercalate ((number :: rest).map fun n => (toString n.toInt).toList)).splitOn ',' =
          (number :: rest).map fun n => (toString n.toInt).toList := by
        apply List.splitOn_intercalate
        · intro piece member
          obtain ⟨own, inside, rfl⟩ := List.mem_map.mp member
          exact number_no_comma (positive own inside)
        · simp
      have filled : ([','].intercalate
          ((number :: rest).map fun n => (toString n.toInt).toList)).isEmpty = false := by
        rw [List.isEmpty_eq_false_iff]
        intro nothing
        -- An empty text would be read as one empty number.
        rw [nothing] at split
        rw [← split] at read
        cases read
      rw [listed, filled, split, read]
      rfl

theorem web_reads : UploadIsland.ReadsJson web := by
  intro numbers positive
  have inner := listed_numbers positive
  generalize same : [','].intercalate (numbers.map fun n => (toString n.toInt).toList) = text at inner
  have shape : UploadIsland.bodyJson numbers = '[' :: (text ++ [']']) := by
    rw [UploadIsland.bodyJson, same]
    rfl
  rw [shape]
  simp only [web, partsFromJson, fromUtf8_utf8, List.getLast?_concat, List.dropLast_concat, inner, if_true]

end Reference

end Ferrobucket
