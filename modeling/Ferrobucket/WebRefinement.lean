import Ferrobucket.Reassembly
import Ferrobucket.WebModel
/-! Both fronts answer as one service. Each request of the web interface is answered as the model
answers it, and with the requests of the S3 service between them every conversation is one that the
model can have. -/
namespace Ferrobucket
open Text Posix Program

/-- One request of the web interface: outcome and store are the model's, for some choice. -/
def WebAnswered (crates : Crates) (storage : FsStorage) (web : WebCrates) (http : HeaderValues)
    (model : S3Model) (request : WebRequest) (outcome : WebOutcome) (after : FS) : Prop :=
  ∃ choice, outcome = (model.serve crates storage web http choice request).1 ∧
    model.AllowsWeb request outcome choice ∧
    S3Stands crates storage after (model.serve crates storage web http choice request).2

section Steps
variable {crates : Crates} {storage : FsStorage} {web : WebCrates} {http : HeaderValues} {s t : FS}
  {model : S3Model} {store : Store}

/-! ### Server functions -/

theorem allows_web {request : WebRequest} {outcome : WebOutcome} (choice : S3Choice)
    (other : ∀ bucket key params contentType body, request ≠ .upload bucket key params contentType body)
    (unlisted : request ≠ .listBuckets) : model.AllowsWeb request outcome choice :=
  ⟨fun bucket key params contentType body _ same => absurd same (other bucket key params contentType body),
    fun same => absurd same unlisted⟩

/-- A call of the storage as a server function hands it on. -/
theorem wp_toldAs {Value : Type} {texts : Texts} {call : Op Value} {shown : Value → WebReply}
    {post : WebOutcome → FS → Prop} :
    wp faultFree (told texts call >>= fun value => pure (shown value)) post s ↔
      wp faultFree call (fun outcome after => post (toldAs texts shown outcome) after) s := by
  rw [wp_return, wp_told]
  rfl

theorem web_create_bucket (stands : S3Stands crates storage s model) (name : Str) :
    wp faultFree (webHandle crates storage web http (.createBucket name))
      (WebAnswered crates storage web http model (.createBucket name)) s := by
  obtain ⟨unlimited, store, holds, offers⟩ := stands
  unfold webHandle createBucketFn
  rw [wp_toldAs]
  apply wp_mono (wp_limited (create_refines holds name))
  rintro outcome after ⟨⟨time, rfl, still, _⟩, limit⟩
  obtain ⟨same, next⟩ := create_offers offers name time
  refine ⟨⟨time, [], []⟩, ?_, allows_web _ (by rintro _ _ _ _ _ ⟨⟩) (by rintro ⟨⟩), limit.trans unlimited, _,
    still, next⟩
  rw [same]
  rfl

theorem web_delete_bucket (stands : S3Stands crates storage s model) (name : Str) :
    wp faultFree (webHandle crates storage web http (.deleteBucket name))
      (WebAnswered crates storage web http model (.deleteBucket name)) s := by
  obtain ⟨unlimited, store, holds, offers⟩ := stands
  unfold webHandle deleteBucketFn
  rw [wp_toldAs]
  apply wp_mono (wp_limited (delete_bucket_refines holds (offers_paired holds.sound offers) name))
  rintro outcome after ⟨⟨rfl, still⟩, limit⟩
  obtain ⟨same, next⟩ := delete_bucket_offers holds.sound offers name
  refine ⟨⟨0, [], []⟩, ?_, allows_web _ (by rintro _ _ _ _ _ ⟨⟩) (by rintro ⟨⟩), limit.trans unlimited, _,
    still, next⟩
  rw [same]
  rfl

theorem web_delete_object (stands : S3Stands crates storage s model) (bucket key : Str) :
    wp faultFree (webHandle crates storage web http (.deleteObject bucket key))
      (WebAnswered crates storage web http model (.deleteObject bucket key)) s := by
  obtain ⟨unlimited, store, holds, offers⟩ := stands
  unfold webHandle deleteObjectFn
  rw [wp_toldAs]
  apply wp_mono (wp_limited (delete_refines holds bucket key))
  rintro outcome after ⟨⟨rfl, still⟩, limit⟩
  rw [unlimited] at still limit ⊢
  obtain ⟨same, next⟩ := delete_offers offers bucket key
  refine ⟨⟨0, [], []⟩, ?_, allows_web _ (by rintro _ _ _ _ _ ⟨⟩) (by rintro ⟨⟩), limit, _, still, next⟩
  rw [same]
  rfl

theorem web_head_object (stands : S3Stands crates storage s model) (bucket key : Str) :
    wp faultFree (webHandle crates storage web http (.headObject bucket key))
      (WebAnswered crates storage web http model (.headObject bucket key)) s := by
  have kept := stands
  obtain ⟨unlimited, store, holds, offers⟩ := stands
  unfold webHandle headObjectFn
  rw [wp_return, wp_return, wp_told, head_refines holds, unlimited]
  refine ⟨⟨0, [], []⟩, ?_, allows_web _ (by rintro _ _ _ _ _ ⟨⟩) (by rintro ⟨⟩), kept⟩
  simp only [S3Model.serve]
  rcases find_offers storage offers bucket key with ⟨e, absent, head⟩ | ⟨object, there, head, _⟩
  · rw [head, absent]
    rfl
  · rw [head, there]
    rfl

theorem web_list_objects (stands : S3Stands crates storage s model) (bucket : Str)
    (pfx continuationToken : Option Str) :
    wp faultFree (webHandle crates storage web http (.listObjects bucket pfx continuationToken))
      (WebAnswered crates storage web http model (.listObjects bucket pfx continuationToken)) s := by
  have kept := stands
  obtain ⟨unlimited, store, holds, offers⟩ := stands
  unfold webHandle
  rw [wp_return, listing_decided web.texts holds, unlimited, page_offers storage holds.sound offers]
  refine ⟨⟨0, [], []⟩, ?_, allows_web _ (by rintro _ _ _ _ _ ⟨⟩) (by rintro ⟨⟩), kept⟩
  simp only [S3Model.serve, toldAs]
  cases model.page bucket ⟨pfx, some ['/'], continuationToken, none⟩ <;> rfl

theorem web_download (stands : S3Stands crates storage s model) (bucket : Str) (key : ObjectKey) :
    wp faultFree (webHandle crates storage web http (.download bucket key))
      (WebAnswered crates storage web http model (.download bucket key)) s := by
  have kept := stands
  obtain ⟨unlimited, store, holds, offers⟩ := stands
  unfold webHandle
  rw [wp_return]
  rcases find_offers storage offers bucket key with ⟨e, absent, head⟩ | ⟨object, there, head, body⟩
  · rw [← unlimited] at head
    unfold fetchFile downloadHandler
    rw [wp_bind, wp_attempt, wp_bind, wp_attempt, wp_getRefused holds head]
    refine ⟨⟨0, [], []⟩, ?_, allows_web _ (by rintro _ _ _ _ _ ⟨⟩) (by rintro ⟨⟩), kept⟩
    simp only [S3Model.serve, absent]
    rfl
  · rw [← unlimited] at head
    apply wp_mono (wp_fetchFound http holds head body)
    rintro _ _ ⟨rfl, rfl⟩
    refine ⟨⟨0, [], []⟩, ?_, allows_web _ (by rintro _ _ _ _ _ ⟨⟩) (by rintro ⟨⟩), kept⟩
    simp only [S3Model.serve, there]
    rfl

/-- The rows of the buckets that are there, in the order of the directory. -/
theorem wp_rows_offered (holds : Holds crates storage s store) (unlimited : s.nameMax = none)
    (offers : store.Offers model) (order : List Str) :
    wp faultFree (bucketRows crates storage web.texts (store.bucketInfos order)) (fun outcome after =>
      after = s ∧ outcome = (model.bucketRows web.texts order).mapError (StorageError.text web.texts)) s := by
  unfold Store.bucketInfos
  induction order with
  | nil => exact ⟨rfl, rfl⟩
  | cons name rest ih =>
      cases present : store.buckets.lookup name with
      | none =>
          simpa [present, S3Model.bucketRows, offers_none offers present] using ih
      | some bucket =>
          obtain ⟨offered, found, inside⟩ := offers_some offers present
          simp only [List.filterMap_cons, present, Option.bind_some, inside.info, S3Model.bucketRows, found]
          unfold Ferrobucket.bucketRows bucketRow S3Model.bucketRow
          rw [wp_bind, wp_bind, wp_told, list_decided holds, unlimited, page_offers storage holds.sound offers]
          cases model.page name ⟨none, none, none, none⟩ with
          | error e => exact ⟨rfl, rfl⟩
          | ok page =>
              simp only [Except.mapError, Prog.pure_eq, wp_done]
              rw [wp_bind]
              apply wp_mono ih
              rintro _ _ ⟨rfl, rfl⟩
              cases model.bucketRows web.texts rest <;> exact ⟨rfl, rfl⟩

theorem web_list_buckets (stands : S3Stands crates storage s model) :
    wp faultFree (webHandle crates storage web http .listBuckets)
      (WebAnswered crates storage web http model .listBuckets) s := by
  have kept := stands
  obtain ⟨unlimited, store, holds, offers⟩ := stands
  unfold webHandle listBucketsFn
  rw [wp_return, wp_bind, wp_told]
  apply wp_mono (list_buckets_refines holds)
  rintro _ _ ⟨rfl, order, distinct, covers, rfl⟩
  simp only [Except.mapError]
  apply wp_mono (wp_rows_offered holds unlimited offers order)
  rintro _ _ ⟨rfl, rfl⟩
  -- Names that are no buckets have no rows.
  have shown : ∀ names, model.bucketRows web.texts (names.filter fun name => (model.buckets.lookup name).isSome) =
      model.bucketRows web.texts names := by
    intro names
    induction names with
    | nil => rfl
    | cons name rest ih =>
        cases found : model.buckets.lookup name with
        | none => simp [found, S3Model.bucketRows, ih]
        | some bucket => simp [found, S3Model.bucketRows, ih]
  refine ⟨⟨0, [], order.filter fun name => (model.buckets.lookup name).isSome⟩, ?_,
    ⟨by rintro _ _ _ _ _ _ ⟨⟩, fun _ => offered_order offers distinct covers⟩, kept⟩
  simp only [S3Model.serve, shown]
  rfl

/-! ### Uploads -/

theorem runs_responded {Value : Type} {call : Op Value} {success : Value → UploadResponse}
    {response : UploadResponse} (run : Runs faultFree (respond web call success) s (.ok response) t) :
    ∃ result, Runs faultFree call s result t ∧ response = responded web success result := by
  obtain ⟨result, own, rfl⟩ := respond_run run
  refine ⟨result, own, ?_⟩
  cases result <;> rfl

/-- A response of the upload handler, for some choice of the model. -/
def UploadAnswered (crates : Crates) (storage : FsStorage) (web : WebCrates) (model : S3Model)
    (bucket key : Str) (params : UploadParams) (contentType : Option Str) (body : Body)
    (response : UploadResponse) (after : FS) : Prop :=
  ∃ choice, response = (model.upload crates storage web choice bucket key params contentType body).1 ∧
    (params.action = some "create".toList → response.status = .ok →
      isUuid choice.uploadId = true ∧ choice.uploadId ∉ model.uploads) ∧
    S3Stands crates storage after
      (model.upload crates storage web choice bucket key params contentType body).2

theorem upload_created (stands : S3Stands crates storage s model) {bucket : Str} {key : ObjectKey}
    {params : UploadParams} {contentType : Option Str} (body : Body) {response : UploadResponse}
    (create : params.action = some "create".toList)
    (run : Runs faultFree (uploadHandler crates storage web bucket key params contentType body) s
      (.ok response) t) :
    UploadAnswered crates storage web model bucket key params contentType body response t := by
  obtain ⟨unlimited, store, holds, offers⟩ := stands
  rw [uploadHandler, if_pos create] at run
  obtain ⟨drawn, call, rfl⟩ := runs_responded run
  obtain ⟨id, fresh, rfl, still⟩ := create_upload_run holds call
  obtain ⟨same, next⟩ := upload_offers offers bucket key (resolveContentType key contentType) id
  have whole := (runs_continue call).limit.trans unlimited
  unfold UploadAnswered S3Model.upload
  simp only [if_pos create]
  refine ⟨⟨0, id, []⟩, by rw [same], ?_, whole, _, still, next⟩
  intro _ succeeded
  have ok : (store.createMultipartUpload bucket key (resolveContentType key contentType) id).1.isOk = true := by
    cases made : (store.createMultipartUpload bucket key (resolveContentType key contentType) id).1 with
    | error e => simp [made, responded, refuse] at succeeded
    | ok _ => rfl
  obtain ⟨uuid, new⟩ := fresh ok
  exact ⟨uuid, Finmap.lookup_eq_none.mp (offers_ended offers (unissued_dead holds new))⟩

theorem upload_completed (stands : S3Stands crates storage s model) {bucket id : Str} {key : ObjectKey}
    {params : UploadParams} {contentType : Option Str} {body : Body} {response : UploadResponse}
    (action : params.action = some "complete".toList) (live : params.uploadId = some id)
    (uuid : isUuid id = true) (orderly : model.Orderly bucket key id)
    (run : Runs faultFree (uploadHandler crates storage web bucket key params contentType body) s
      (.ok response) t) :
    UploadAnswered crates storage web model bucket key params contentType body response t := by
  have kept := stands
  obtain ⟨unlimited, store, holds, offers⟩ := stands
  have other : params.action ≠ some "create".toList := by
    rw [action]
    decide
  rw [uploadHandler, if_neg other, if_pos action, live] at run
  unfold completeHandler at run
  unfold UploadAnswered S3Model.upload
  simp only [if_neg other, if_pos action, live, S3Model.complete]
  cases read : toBytes web (1024 * 1024) body with
  | error e =>
      simp only [read] at run ⊢
      cases run
      exact ⟨⟨0, [], []⟩, rfl, fun create => absurd create other, kept⟩
  | ok bytes =>
      simp only [read] at run ⊢
      cases listed : web.partsFromJson bytes with
      | error e =>
          simp only [listed] at run ⊢
          cases run
          exact ⟨⟨0, [], []⟩, rfl, fun create => absurd create other, kept⟩
      | ok parts =>
          simp only [listed] at run ⊢
          obtain ⟨answered, call, rfl⟩ := runs_responded run
          obtain ⟨⟨time, rfl, still⟩, limit⟩ := wp_runs (wp_limited (complete_refines holds unlimited bucket key
            uuid (parts.map Int32.toInt))) call
          obtain ⟨same, next⟩ := complete_offers crates storage offers orderly (parts.map Int32.toInt) time
          refine ⟨⟨time, [], []⟩, ?_, fun create => absurd create other, limit.trans unlimited, _, still, next⟩
          rw [same]
          cases (model.completeMultipartUpload crates key id (parts.map Int32.toInt) time).1 <;> rfl

theorem upload_aborted (stands : S3Stands crates storage s model) {bucket id : Str} {key : ObjectKey}
    {params : UploadParams} {contentType : Option Str} (body : Body) {response : UploadResponse}
    (action : params.action = some "abort".toList) (live : params.uploadId = some id)
    (uuid : isUuid id = true)
    (run : Runs faultFree (uploadHandler crates storage web bucket key params contentType body) s
      (.ok response) t) :
    UploadAnswered crates storage web model bucket key params contentType body response t := by
  obtain ⟨unlimited, store, holds, offers⟩ := stands
  have create : params.action ≠ some "create".toList := by
    rw [action]
    decide
  have complete : params.action ≠ some "complete".toList := by
    rw [action]
    decide
  rw [uploadHandler, if_neg create, if_neg complete, if_pos action, live] at run
  obtain ⟨answered, call, rfl⟩ := runs_responded run
  obtain ⟨⟨rfl, still⟩, limit⟩ := wp_runs (wp_limited (abort_refines holds bucket uuid)) call
  obtain ⟨same, next⟩ := abort_offers offers id
  unfold UploadAnswered S3Model.upload
  simp only [if_neg create, if_neg complete, if_pos action, live]
  exact ⟨⟨0, [], []⟩, by rw [same], fun made => absurd made create, limit.trans unlimited, _, still, next⟩

theorem upload_parted (stands : S3Stands crates storage s model) {bucket id : Str} {key : ObjectKey}
    {params : UploadParams} {number : Int32} {contentType : Option Str} {body : Body} {response : UploadResponse}
    (create : params.action ≠ some "create".toList) (complete : params.action ≠ some "complete".toList)
    (abort : params.action ≠ some "abort".toList) (live : params.uploadId = some id)
    (numbered : params.partNumber = some number) (uuid : isUuid id = true)
    (run : Runs faultFree (uploadHandler crates storage web bucket key params contentType body) s
      (.ok response) t) :
    UploadAnswered crates storage web model bucket key params contentType body response t := by
  obtain ⟨unlimited, store, holds, offers⟩ := stands
  rw [uploadHandler, if_neg create, if_neg complete, if_neg abort, live, numbered] at run
  obtain ⟨answered, call, rfl⟩ := runs_responded run
  obtain ⟨⟨rfl, still⟩, limit⟩ := wp_runs (wp_limited (part_refines holds unlimited bucket uuid number.toInt
    body)) call
  obtain ⟨same, next⟩ := part_offers crates offers id number.toInt body
  unfold UploadAnswered S3Model.upload
  simp only [if_neg create, if_neg complete, if_neg abort, live, numbered]
  exact ⟨⟨0, [], []⟩, by rw [same], fun made => absurd made create, limit.trans unlimited, _, still, next⟩

theorem upload_whole (stands : S3Stands crates storage s model) {bucket : Str} {key : ObjectKey}
    {params : UploadParams} {contentType : Option Str} {body : Body} {response : UploadResponse}
    (create : params.action ≠ some "create".toList) (complete : params.action ≠ some "complete".toList)
    (abort : params.action ≠ some "abort".toList)
    (single : params.uploadId = none ∨ params.partNumber = none)
    (run : Runs faultFree (uploadHandler crates storage web bucket key params contentType body) s
      (.ok response) t) :
    UploadAnswered crates storage web model bucket key params contentType body response t := by
  obtain ⟨unlimited, store, holds, offers⟩ := stands
  have put : Runs faultFree (respond web (putObject crates storage bucket key body
      (resolveContentType key contentType)) fun _ => { status := .ok }) s (.ok response) t := by
    rw [uploadHandler, if_neg create, if_neg complete, if_neg abort] at run
    cases live : params.uploadId with
    | none => simpa only [live] using run
    | some id =>
        have unnumbered : params.partNumber = none := by simpa [live] using single
        simpa only [live, unnumbered] using run
  have model_put : ∀ choice, model.upload crates storage web choice bucket key params contentType body =
      (responded web (fun _ => { status := .ok }) (model.putObject crates bucket key body
        (resolveContentType key contentType) choice.time).1, (model.putObject crates bucket key body
        (resolveContentType key contentType) choice.time).2) := by
    intro choice
    unfold S3Model.upload
    simp only [if_neg create, if_neg complete, if_neg abort]
    cases live : params.uploadId with
    | none => rfl
    | some id =>
        have unnumbered : params.partNumber = none := by simpa [live] using single
        simp only [unnumbered]
  obtain ⟨answered, call, rfl⟩ := runs_responded put
  obtain ⟨⟨time, rfl, still⟩, limit⟩ := wp_runs (wp_limited (put_refines holds bucket key body
    (resolveContentType key contentType))) call
  rw [unlimited] at still limit ⊢
  obtain ⟨same, next⟩ := put_offers crates offers bucket key body (resolveContentType key contentType) time
  refine ⟨⟨time, [], []⟩, ?_, fun made => absurd made create, limit, _, still, ?_⟩
  · rw [model_put, same]
    cases (model.putObject crates bucket key body (resolveContentType key contentType) time).1 <;> rfl
  · rw [model_put]
    exact next

theorem web_upload (stands : S3Stands crates storage s model) {bucket : Str} {key : ObjectKey}
    {params : UploadParams} {contentType : Option Str} {body : Body} {response : UploadResponse}
    (uuids : ∀ id, params.uploadId = some id → isUuid id = true)
    (orderly : ∀ id, params.uploadId = some id → params.action = some "complete".toList →
      model.Orderly bucket key id)
    (run : Runs faultFree (uploadHandler crates storage web bucket key params contentType body) s
      (.ok response) t) :
    UploadAnswered crates storage web model bucket key params contentType body response t := by
  by_cases create : params.action = some "create".toList
  · exact upload_created stands body create run
  by_cases complete : params.action = some "complete".toList
  · cases live : params.uploadId with
    | some id => exact upload_completed stands complete live (uuids id live) (orderly id live complete) run
    | none =>
        rw [uploadHandler, if_neg create, if_pos complete, live] at run
        cases run
        unfold UploadAnswered S3Model.upload
        simp only [if_neg create, if_pos complete, live]
        exact ⟨⟨0, [], []⟩, trivial, fun made => absurd made create, stands⟩
  by_cases abort : params.action = some "abort".toList
  · cases live : params.uploadId with
    | some id => exact upload_aborted stands body abort live (uuids id live) run
    | none =>
        rw [uploadHandler, if_neg create, if_neg complete, if_pos abort, live] at run
        cases run
        unfold UploadAnswered S3Model.upload
        simp only [if_neg create, if_neg complete, if_pos abort, live]
        exact ⟨⟨0, [], []⟩, trivial, fun made => absurd made create, stands⟩
  cases live : params.uploadId with
  | none => exact upload_whole stands create complete abort (.inl live) run
  | some id =>
      cases numbered : params.partNumber with
      | none => exact upload_whole stands create complete abort (.inr numbered) run
      | some number => exact upload_parted stands create complete abort live numbered (uuids id live) run

/-! ### Conversations with both -/

theorem settled_posted (model : S3Model) (key id : Str) (body : Body) (time : Nat) :
    model.Settled (model.complete crates storage web key id body time).2 := by
  unfold S3Model.complete
  split
  · exact settled_self
  · split
    · exact settled_self
    · exact settled_complete ..

theorem serve_tells (crates : Crates) (storage : FsStorage) (web : WebCrates) (http : HeaderValues)
    (model : S3Model) (choice : S3Choice) (request : WebRequest) :
    model.Tells (model.serve crates storage web http choice request).2
      (newsOfWeb request (model.serve crates storage web http choice request).1) := by
  cases request with
  | upload bucket key params contentType body =>
      simp only [S3Model.serve, newsOfWeb, S3Model.upload]
      by_cases create : params.action = some "create".toList
      · have told := tells_begun model bucket key (resolveContentType key contentType) choice.uploadId
        simp only [create, true_and]
        cases begun : (model.createMultipartUpload bucket key (resolveContentType key contentType)
            choice.uploadId).1 with
        | error e => simpa [begun, responded, refuse, Except.toOption] using told
        | ok id => simpa [begun, responded, Except.toOption] using told
      · simp only [create, false_and, if_false]
        split
        · split
          · exact settled_self
          · exact settled_posted ..
        · split
          · split
            · exact settled_self
            · exact settled_abort ..
          · split
            · exact settled_part ..
            · exact settled_put ..
  | download bucket key => exact settled_self
  | listBuckets =>
      simp only [S3Model.serve, toldAs]
      cases model.bucketRows web.texts choice.order <;> exact settled_self
  | createBucket name =>
      have told := tells_created model name choice.time
      cases made : (model.createBucket name choice.time).1 with
      | error e => simpa [S3Model.serve, newsOfWeb, toldAs, made, Except.mapError, Except.map, Except.isOk,
          Except.toBool] using told
      | ok _ => simpa [S3Model.serve, newsOfWeb, toldAs, made, Except.mapError, Except.map, Except.isOk,
          Except.toBool] using told
  | deleteBucket name =>
      have told := tells_removed model name
      cases gone : (model.deleteBucket name).1 with
      | error e => simpa [S3Model.serve, newsOfWeb, toldAs, gone, Except.mapError, Except.map, Except.isOk,
          Except.toBool] using told
      | ok _ => simpa [S3Model.serve, newsOfWeb, toldAs, gone, Except.mapError, Except.map, Except.isOk,
          Except.toBool] using told
  | listObjects bucket pfx continuationToken => exact settled_self
  | headObject bucket key => exact settled_self
  | deleteObject bucket key => exact settled_delete ..

/-- One request of any kind to the web interface. -/
theorem web_step {past : List News} (stands : S3Stands crates storage s model)
    (remembers : model.Remembers past) {request : WebRequest} {outcome : WebOutcome}
    (orderly : OrderlyWeb past request)
    (run : Runs faultFree (webHandle crates storage web http request) s outcome t) :
    WebAnswered crates storage web http model request outcome t := by
  cases request with
  | upload bucket key params contentType body =>
      unfold webHandle at run
      rcases runs_bind run with ⟨inner, middle, first, last⟩ | ⟨error, rfl, first⟩
      · obtain ⟨result, same, posted⟩ := runs_attempt first
        obtain rfl := Except.ok.inj same
        cases inner with
        | error impossible => exact impossible.elim
        | ok response =>
            cases last
            obtain ⟨choice, rfl, fresh, next⟩ := web_upload stands (fun id live => (orderly id live).1)
              (fun id live complete => completed_orderly remembers ((orderly id live).2 complete)) posted
            refine ⟨choice, rfl, ⟨?_, by rintro ⟨⟩⟩, next⟩
            rintro _ _ _ _ _ _ ⟨⟩ create ⟨⟩ succeeded
            exact fresh create succeeded
      · obtain ⟨_, impossible, _⟩ := runs_attempt first
        cases impossible
  | download bucket key => exact wp_runs (web_download stands bucket key) run
  | listBuckets => exact wp_runs (web_list_buckets stands) run
  | createBucket name => exact wp_runs (web_create_bucket stands name) run
  | deleteBucket name => exact wp_runs (web_delete_bucket stands name) run
  | listObjects bucket pfx continuationToken =>
      exact wp_runs (web_list_objects stands bucket pfx continuationToken) run
  | headObject bucket key => exact wp_runs (web_head_object stands bucket key) run
  | deleteObject bucket key => exact wp_runs (web_delete_object stands bucket key) run

/-- What is orderly after the first exchange is so with its news. -/
theorem orderly_later {past : List News} {first : Exchange} {rest : List Exchange}
    (all : ∀ earlier exchange later, first :: rest = earlier ++ exchange :: later →
      exchange.Orderly (past ++ earlier.filterMap Exchange.news)) :
    first.Orderly past ∧ ∀ earlier exchange later, rest = earlier ++ exchange :: later →
      exchange.Orderly (past ++ first.news.toList ++ earlier.filterMap Exchange.news) := by
  constructor
  · have own := all [] first rest rfl
    rwa [List.filterMap_nil, List.append_nil] at own
  · intro earlier exchange behind same
    have inside := all (first :: earlier) exchange behind (by rw [same]; rfl)
    rw [List.append_assoc]
    cases news : first.news with
    | none => simpa [List.filterMap_cons, news] using inside
    | some told => simpa [List.filterMap_cons, news] using inside

-- Induction on the run; what both fronts have said before is what a client goes by.
theorem fronts_answered {events : List Exchange} {past : List News} (stands : S3Stands crates storage s model)
    (remembers : model.Remembers past) (run : FrontsServed crates storage web http s events t)
    (orderly : ∀ earlier exchange later, events = earlier ++ exchange :: later →
      exchange.Orderly (past ++ earlier.filterMap Exchange.news)) :
    ∃ after, S3Model.AnswersFronts crates storage web http model events after ∧
      S3Stands crates storage t after := by
  induction run generalizing model past with
  | nil s => exact ⟨model, .nil model, stands⟩
  | @s3 s middle t request outcome rest run _ ih =>
      obtain ⟨first, others⟩ := orderly_later orderly
      obtain ⟨choice, rfl, allowed, next⟩ := s3_step stands (orderly_model remembers first) run
      obtain ⟨after, answers, final⟩ := ih next
        (remembers_told remembers (respond_tells crates web.texts model choice request)) others
      exact ⟨after, .s3 rfl allowed answers, final⟩
  | @web s middle t request outcome rest run _ ih =>
      obtain ⟨first, others⟩ := orderly_later orderly
      obtain ⟨choice, rfl, allowed, next⟩ := web_step stands remembers first run
      obtain ⟨after, answers, final⟩ := ih next
        (remembers_told remembers (serve_tells crates storage web http model choice request)) others
      exact ⟨after, .web rfl allowed answers, final⟩

end Steps

/-! ### A photo uploaded in the browser and fetched from the S3 service -/

section Photo
open Reference

def photoPosted : WebRequest := .upload bucket photoKey .empty none [.ok [1], .ok [2]]

theorem photo_posted : ∃ (created posted : WebOutcome) (got : S3Outcome) (t : FS),
    FrontsServed Crates.reference storage web headers (disk none)
      [.web (.createBucket bucket) created, .web photoPosted posted, .s3 (.getObject bucket photoKey none) got] t := by
  obtain ⟨stands, remembers⟩ := begins_empty Crates.reference (disk_empty none) rfl
  have create : wp faultFree (webHandle Crates.reference storage web headers (.createBucket bucket))
      (WebAnswered Crates.reference storage web headers .empty (.createBucket bucket)) (disk none) :=
    web_create_bucket stands bucket
  obtain ⟨created, first, made, choice, _, _, begun⟩ := wp_returns create
  have known := remembers_told remembers
    (serve_tells Crates.reference storage web headers .empty choice (.createBucket bucket))
  have kept := begun
  obtain ⟨_, store, holds, _⟩ := begun
  have post : wp faultFree (webHandle Crates.reference storage web headers photoPosted)
      (fun _ middle => ∃ store, Holds Crates.reference storage middle store) first := by
    unfold webHandle photoPosted
    simp only []
    rw [wp_bind, wp_attempt]
    unfold uploadHandler
    rw [if_neg (by decide), if_neg (by decide), if_neg (by decide)]
    simp only [UploadParams.empty]
    rw [wp_respond]
    apply wp_mono (put_refines holds bucket photoKey [.ok [1], .ok [2]] (resolveContentType photoKey none))
    rintro outcome after ⟨time, _, still⟩
    cases outcome <;> exact ⟨_, still⟩
  obtain ⟨posted, second, put, _⟩ := wp_returns post
  have plain : ∀ past, OrderlyWeb past photoPosted := by
    rintro past id ⟨⟩
  obtain ⟨_, _, _, later⟩ := web_step kept known (plain _) put
  obtain ⟨got, t, read, _⟩ := wp_returns (s3_get web.texts later bucket photoKey none)
  exact ⟨created, posted, got, t, .web made (.web put (.s3 read (.nil t)))⟩

end Photo
end Ferrobucket
