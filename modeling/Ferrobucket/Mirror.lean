import Ferrobucket.Lib.Retold
import Ferrobucket.BatchDelete
import Ferrobucket.Download
import Ferrobucket.FolderWalk
import Ferrobucket.QueryLinks
import Ferrobucket.Readers
import Ferrobucket.S3Refinement
/-! The web interface as a client sees it: pages that link to pages and to downloads. A client
that starts at the page of a bucket, opens every folder and every next page and fetches every
download gets each stored object. -/
namespace Ferrobucket
open Text Posix Program Folders Grouping Url PercentEncoding Header Retold

/-! ### Pages -/

structure PageLink where
  name : Str
  href : Str

/-- What a page of the object browser leads to. -/
structure BrowserPage where
  folders : List PageLink
  downloads : List PageLink
  next : Option Str

namespace ObjectTable

/-- `folder.trim_end_matches('/').rsplit('/').next()` with a slash behind it. -/
def folderName (folder : Str) : Str :=
  let trimmed := (folder.reverse.dropWhile (· = '/')).reverse
  (trimmed.splitOn '/').getLast?.elim folder fun s => s ++ ['/']

/-- `key.rsplit('/').next().unwrap_or(&key)`. -/
def displayName (key : Str) : Str := (key.splitOn '/').getLast?.getD key

end ObjectTable

namespace ObjectBrowserPage

def baseHref (bucket : Str) : Str := bucketsRoute ++ bucket

/-- The route parameter: one segment behind the route, unescaped. -/
def bucketOf (form : FormDecoder) (href : Str) : Option Str :=
  let base := (readAddress form href).1
  if bucketsRoute.isPrefixOf base then
    let segment := base.drop bucketsRoute.length
    if segment.isEmpty || segment.contains '/' then none else percentDecodeStr segment
  else none

/-- A listing with neither folders nor objects shows an empty state, without a table or a
pagination bar. -/
def view (bucket : Str) (listing : ObjectListing) : BrowserPage :=
  if listing.folders.isEmpty && listing.objects.isEmpty then ⟨[], [], none⟩
  else
    { folders := listing.folders.map fun folder =>
        ⟨ObjectTable.folderName folder, ObjectTable.folderHref bucket folder⟩
      downloads := listing.objects.map fun obj =>
        ⟨ObjectTable.displayName obj.key, ObjectTable.downloadHref bucket obj.key⟩
      next := listing.nextToken.map fun token =>
        PaginationBar.buildHref (baseHref bucket) listing.pfx (some token) }

end ObjectBrowserPage

section Client
variable (crates : Crates) (storage : FsStorage) (texts : Texts) (form : FormDecoder) (http : HeaderValues)

/-- The page at an address; an address that is no bucket's has none. -/
def ObjectBrowserPage.load (href : Str) : ServerFn (Option BrowserPage) :=
  match ObjectBrowserPage.bucketOf form href with
  | none => pure none
  | some bucket => do
      let pfx := ObjectBrowserPage.prefixOf form href
      let continuation := ObjectBrowserPage.continuationOf form href
      let listing ← listObjectsFn crates storage texts bucket
        (if pfx.isEmpty then none else some pfx) (if continuation.isEmpty then none else some continuation)
      pure (some (ObjectBrowserPage.view bucket listing))

/-- The links to downloads and to folders of a page and of the pages behind it. -/
def turnPages : Nat → Str → ServerFn (Option (List Str × List Str))
  | 0, _ => pure none
  | patience + 1, href => do
      match ← ObjectBrowserPage.load crates storage texts form href with
      | none => pure none
      | some page =>
          let downloads := page.downloads.map PageLink.href
          let folders := page.folders.map PageLink.href
          match page.next with
          | none => pure (some (downloads, folders))
          | some next =>
              let later ← turnPages patience next
              pure (later.map fun behind => (downloads ++ behind.1, folders ++ behind.2))

/-- Every page that can be reached from the page of a bucket through folders. -/
def crawl (patience depth : Nat) (bucket : Str) : ServerFn (Option (List (Folder Char))) :=
  walk (turnPages crates storage texts form patience) depth (ObjectBrowserPage.baseHref bucket)

/-- What comes back for a link: no route takes it, the handler ends without a response, the
object is not there, its bytes cannot be read, or a file. -/
inductive SavedFile where
  | unrouted
  | dropped
  | notFound
  | broken
  | file (contentType contentDisposition content : Bytes)
  deriving DecidableEq

def fetchStream : Except Panicked Download → ServerFn SavedFile
  | .error _ => pure .dropped
  | .ok .notFound => pure .notFound
  | .ok (.found contentType contentDisposition body) => do
      match ← body.collect.attempt with
      | .ok content => pure (.file contentType contentDisposition content)
      | .error _ => pure .broken

/-- What a client of the download handler gets. -/
def fetchFile (bucket key : Str) : ServerFn SavedFile := do
  let response ← (downloadHandler crates storage http bucket key).attempt
  fetchStream response

def fetchLink (href : Str) : ServerFn SavedFile :=
  match downloadTarget href with
  | none => pure .unrouted
  | some (bucket, key) => fetchFile crates storage http bucket key

def fetchLinks : List Str → ServerFn (List (Str × SavedFile))
  | [] => pure []
  | href :: rest => do
      let fetched ← fetchLink crates storage http href
      let others ← fetchLinks rest
      pure ((href, fetched) :: others)

/-- Crawl a bucket, then fetch everything that its pages offer. -/
def mirror (patience depth : Nat) (bucket : Str) : ServerFn (Option (List (Str × SavedFile))) := do
  match ← crawl crates storage texts form patience depth bucket with
  | none => pure none
  | some pages =>
      let files ← fetchLinks crates storage http (pages.flatMap Folder.keys)
      pure (some files)

end Client

/-- The file that the download of a version is. -/
def downloadOf (http : HeaderValues) (key : Str) (version : ObjectMeta × Bytes) : SavedFile :=
  .file ((http.parse version.1.contentType).getD (utf8 octetStream)) (utf8 (disposition key)) version.2

/-- Every stored key has one link, and a key that a link may hold and whose last segment a header
value may hold comes back as the file it is. -/
structure Mirrors (http : HeaderValues) (nameMax : Option Nat) (name : Str) (bucket : Bucket)
    (files : List (Str × SavedFile)) : Prop where
  links : ∀ href, href ∈ files.map Prod.fst ↔
    ∃ key, bucket.Stores key ∧ href = ObjectTable.downloadHref name key
  once : (files.map Prod.fst).Nodup
  content : ∀ key version, bucket.version nameMax key = some version → Verbatim key →
    (∀ b ∈ utf8 (Segments.rest '/' key), isValueByte b = true) →
    (ObjectTable.downloadHref name key, downloadOf http key version) ∈ files

/-! ### Addresses -/

/-- The page of a folder. -/
def folderAddress (bucket pfx : Str) : Str :=
  PaginationBar.buildHref (ObjectBrowserPage.baseHref bucket) pfx none

theorem folder_href_address (bucket : Str) {folder : Str} (nonempty : folder ≠ []) :
    ObjectTable.folderHref bucket folder = folderAddress bucket folder := by
  unfold folderAddress PaginationBar.buildHref ObjectTable.folderHref ObjectBrowserPage.baseHref
  simp [nonempty, ObjectTable.urlencodingSimple, PaginationBar.urlencodingSimple, List.intercalate]

theorem download_href_injective (bucket : Str) : Function.Injective (ObjectTable.downloadHref bucket) := by
  intro left right same
  unfold ObjectTable.downloadHref downloadLink at same
  exact List.append_cancel_left same

section Addresses
variable (form : FormDecoder) {bucket : Str} (valid : validateBucketName bucket = .ok ())
include valid

theorem base_href_plain : '?' ∉ ObjectBrowserPage.baseHref bucket := by
  have route : '?' ∉ bucketsRoute := by decide
  unfold ObjectBrowserPage.baseHref
  rw [List.mem_append, not_or]
  exact ⟨route, (bucket_verbatim valid).question⟩

theorem bucket_of_link (pfx : Str) {token : Option Str} (real : token ≠ some []) :
    ObjectBrowserPage.bucketOf form
      (PaginationBar.buildHref (ObjectBrowserPage.baseHref bucket) pfx token) = some bucket := by
  have named := bucket_verbatim valid
  have slash := bucket_no_slash valid
  have begins : bucketsRoute.isPrefixOf (bucketsRoute ++ bucket) = true :=
    List.isPrefixOf_iff_prefix.mpr (List.prefix_append _ _)
  have read : percentDecodeStr bucket = some bucket := by
    have clear := (percent_decode_same_iff _).mpr named.unescaped
    rw [percentDecodeStr, clear, fromUtf8_utf8]
  unfold ObjectBrowserPage.bucketOf
  rw [read_page_link form (base_href_plain valid) pfx real]
  simp [ObjectBrowserPage.baseHref, begins, named.nonempty, slash, read]

end Addresses

/-! ### Pages of links are pages of the listing -/

/-- What a listing says that leads on under its own prefix, by tokens and to folders with names. -/
structure ObjectListing.Leads (pfx : Str) (listing : ObjectListing) : Prop where
  pfx : listing.pfx = pfx
  folders : ∀ folder ∈ listing.folders, folder ≠ []
  next : ∀ token, listing.nextToken = some token →
    token ≠ [] ∧ (listing.folders.isEmpty && listing.objects.isEmpty) = false

theorem view_downloads (bucket : Str) (listing : ObjectListing) :
    (ObjectBrowserPage.view bucket listing).downloads.map PageLink.href =
      (listing.objects.map ObjectRow.key).map (ObjectTable.downloadHref bucket) := by
  unfold ObjectBrowserPage.view
  split
  · next empty =>
      have none : listing.objects = [] := by simpa using (Bool.and_eq_true_iff.mp empty).2
      simp [none]
  · simp [Function.comp_def]

theorem view_folders (bucket : Str) {listing : ObjectListing} (named : ∀ folder ∈ listing.folders, folder ≠ []) :
    (ObjectBrowserPage.view bucket listing).folders.map PageLink.href =
      listing.folders.map (folderAddress bucket) := by
  unfold ObjectBrowserPage.view
  split
  · next empty =>
      have none : listing.folders = [] := by simpa using (Bool.and_eq_true_iff.mp empty).1
      simp [none]
  · rw [List.map_map]
    apply List.map_congr_left
    intro folder member
    exact folder_href_address bucket (named folder member)

theorem view_next (bucket : Str) {pfx : Str} {listing : ObjectListing} (leads : listing.Leads pfx) :
    (ObjectBrowserPage.view bucket listing).next = listing.nextToken.map fun token =>
      PaginationBar.buildHref (ObjectBrowserPage.baseHref bucket) pfx (some token) := by
  unfold ObjectBrowserPage.view
  rw [leads.pfx]
  cases more : listing.nextToken with
  | none => split <;> rfl
  | some token =>
      rw [(leads.next token more).2]
      rfl

/-- What the server function makes of a page. -/
def shownListing (texts : Texts) (pfx : Option Str) (page : ListV2Res) : ObjectListing :=
  ⟨page.commonPrefixes, page.objects.map fun o => ⟨o.key, UInt64.ofNat o.size, texts.rfc3339 o.lastModified, false⟩,
    page.nextContinuationToken, pfx.getD []⟩

section Pages
variable {crates : Crates} {storage : FsStorage} {s : FS} {store : Store} {name : Str} {bucket : Bucket}

theorem listing_decided (texts : Texts) (holds : Holds crates storage s store) (name : Str)
    (pfx token : Option Str) {post : Except Str ObjectListing → FS → Prop} :
    wp faultFree (listObjectsFn crates storage texts name pfx token) post s ↔
      post (((store.listObjectsV2 storage s.nameMax name ⟨pfx, some ['/'], token, none⟩).mapError
        (StorageError.text texts)).map (shownListing texts pfx)) s := by
  unfold listObjectsFn
  rw [wp_bind, wp_told, list_decided holds]
  cases store.listObjectsV2 storage s.nameMax name ⟨pfx, some ['/'], token, none⟩ <;> rfl

/-- No prefix and the empty prefix are the same. -/
theorem list_root (nameMax : Option Nat) (name : Str) (delimiter token : Option Str) (maxKeys : Option Nat) :
    store.listObjectsV2 storage nameMax name ⟨none, delimiter, token, maxKeys⟩ =
      store.listObjectsV2 storage nameMax name ⟨some [], delimiter, token, maxKeys⟩ := by
  have every : ∀ keys : List Str, keys.filter (fun key => startsWith key []) = keys := by
    intro keys
    simp [startsWith]
  have selected : ∀ keys, selectKeys keys ⟨none, delimiter, token, maxKeys⟩ =
      selectKeys keys ⟨some [], delimiter, token, maxKeys⟩ := by
    intro keys
    unfold selectKeys
    simp only [every]
  unfold Store.listObjectsV2
  simp only [selected]
  rfl

theorem token_nonempty {key : Str} (nonempty : key ≠ []) : encodeContinuationToken key ≠ [] := by
  intro empty
  have read := decode_encode_token key
  have blank : decodeContinuationToken [] = .ok [] := by decide
  rw [empty, blank] at read
  exact nonempty (Except.ok.inj read).symm

/-- A label of a folder ends with the slash that it was cut at. -/
theorem label_named {pfx key label : Str} (collapsed : collapsedPrefix pfx (some ['/']) key = some label) :
    label ≠ [] := by
  rw [collapsed_eq, Option.map_eq_some_iff] at collapsed
  obtain ⟨segment, found, rfl⟩ := collapsed
  obtain ⟨pattern, same, upTo⟩ := Option.bind_eq_some_iff.mp found
  cases same
  have nonempty := segment_nonempty (List.cons_ne_nil _ _) ((Lexical.upTo_iff _ _ _).mp upTo)
  intro empty
  exact nonempty (List.append_eq_nil_iff.mp empty).2

/-- Every page leads on: its folders have names, and a page with a token is neither empty nor is
the token. -/
theorem listing_leads (texts : Texts) (sound : bucket.Sound name) (present : store.buckets.lookup name = some bucket)
    {nameMax : Option Nat} {pfx : Str} {token : Option Str} {page : ListV2Res}
    (answered : store.listObjectsV2 storage nameMax name ⟨some pfx, some ['/'], token, none⟩ = .ok page) :
    (shownListing texts (some pfx) page).Leads pfx := by
  have selected : ∃ keys, selectKeys (Store.scannedKeys bucket) ⟨some pfx, some ['/'], token, none⟩ = .ok keys := by
    cases found : selectKeys (Store.scannedKeys bucket) ⟨some pfx, some ['/'], token, none⟩ with
    | ok keys => exact ⟨keys, rfl⟩
    | error e => simp [Store.listObjectsV2, sound.valid, present, found] at answered
  obtain ⟨keys, selected⟩ := selected
  obtain ⟨shows, _, next⟩ := list_page storage sound.valid present selected answered
  refine ⟨rfl, ?_, ?_⟩
  · intro folder member
    have among := shows.prefixes.mem_iff.mp member
    obtain ⟨entry, taken, label⟩ := List.mem_filterMap.mp among
    have whole := List.mem_filterMap.mpr ⟨entry, List.mem_of_mem_take taken, label⟩
    obtain ⟨key, _, collapsed⟩ := mem_labels.mp whole
    exact label_named collapsed
  · intro resume more
    simp only [shownListing] at more
    rw [more] at next
    split at next
    · next long =>
        obtain ⟨entry, found, same⟩ := Option.map_eq_some_iff.mp next.symm
        have inside := select_mem selected _ (last_mem (List.mem_of_getElem? found))
        obtain ⟨encoded, body, admitted, held⟩ := (mem_scanned sound _).mp inside
        obtain ⟨key, nonempty, own⟩ := sound.objects encoded body held
        obtain rfl := encode_key_injective own admitted
        refine ⟨?_, ?_⟩
        · rw [← same]
          exact token_nonempty nonempty
        · -- A page has as many rows as entries, and it is full.
          have rows := alone_label_length ((pageEntries ⟨some pfx, some ['/'], token, none⟩ keys).take
            (effectiveMaxKeys ⟨some pfx, some ['/'], token, none⟩))
          rw [shows.objects.length_eq, ← shows.prefixes.length_eq, List.length_take_of_le long.le] at rows
          have full := max_keys_pos ⟨some pfx, some ['/'], token, none⟩
          rw [Bool.and_eq_false_iff]
          by_contra bare
          simp only [shownListing, List.isEmpty_eq_false_iff, List.map_eq_nil_iff, not_or, not_not] at bare
          rw [bare.1, bare.2] at rows
          simp only [List.length_nil] at rows
          omega
    · cases next

/-! ### The crawl is the walk through the folders -/

/-- The page at a link shows the listing that the link was made for. -/
theorem load_retells (texts : Texts) (form : FormDecoder) (holds : Holds crates storage s store)
    (valid : validateBucketName name = .ok ()) (pfx : Str) {token : Option Str} (real : token ≠ some []) :
    Retells faultFree s (listObjectsFn crates storage texts name (some pfx) token)
      (ObjectBrowserPage.load crates storage texts form
        (PaginationBar.buildHref (ObjectBrowserPage.baseHref name) pfx token))
      (fun listing => some (ObjectBrowserPage.view name listing)) := by
  have link := read_page_link form (base_href_plain valid) pfx real
  obtain ⟨first, second⟩ := link_pairs_shown pfx token
  intro post holdsThen
  rw [listing_decided texts holds] at holdsThen
  unfold ObjectBrowserPage.load
  rw [bucket_of_link form valid pfx real, ObjectBrowserPage.prefixOf, ObjectBrowserPage.continuationOf, link, first,
    second]
  have resumed : (if (token.getD []).isEmpty then none else some (token.getD [])) = token := by
    cases token with
    | none => rfl
    | some text =>
        have nonempty : text ≠ [] := fun empty => real (congrArg some empty)
        simp [nonempty]
  have asked : (store.listObjectsV2 storage s.nameMax name ⟨if pfx.isEmpty then none else some pfx, some ['/'],
      token, none⟩) = store.listObjectsV2 storage s.nameMax name ⟨some pfx, some ['/'], token, none⟩ := by
    cases pfx with
    | nil => exact list_root s.nameMax name _ _ _
    | cons => rfl
  have shown : shownListing texts (if pfx.isEmpty then none else some pfx) = shownListing texts (some pfx) := by
    cases pfx <;> rfl
  simp only [resumed]
  rw [wp_bind, listing_decided texts holds, asked, shown]
  cases answered : store.listObjectsV2 storage s.nameMax name ⟨some pfx, some ['/'], token, none⟩ with
  | error e =>
      rw [answered] at holdsThen
      exact ⟨rfl, _, rfl, holdsThen⟩
  | ok page =>
      rw [answered] at holdsThen
      exact ⟨rfl, .ok _, rfl, holdsThen⟩

theorem turn_retells (texts : Texts) (form : FormDecoder) (holds : Holds crates storage s store)
    (present : store.buckets.lookup name = some bucket) (pfx : Str) (patience : Nat) {token : Option Str}
    (real : token ≠ some []) :
    Retells faultFree s (browseAll crates storage texts name pfx patience token)
      (turnPages crates storage texts form patience
        (PaginationBar.buildHref (ObjectBrowserPage.baseHref name) pfx token))
      (Option.map fun listings => (((listings.flatMap ObjectListing.objects).map ObjectRow.key).map
          (ObjectTable.downloadHref name), (listings.flatMap ObjectListing.folders).map (folderAddress name))) := by
  have sound := holds.sound.buckets name bucket present
  induction patience generalizing token with
  | zero => exact retells_done rfl
  | succ patience ih =>
      have leads : wp faultFree (listObjectsFn crates storage texts name (some pfx) token)
          (fun outcome _ => ∀ listing, outcome = .ok listing → listing.Leads pfx) s := by
        rw [listing_decided texts holds]
        intro listing shown
        cases answered : store.listObjectsV2 storage s.nameMax name ⟨some pfx, some ['/'], token, none⟩ with
        | error e =>
            rw [answered] at shown
            cases shown
        | ok page =>
            rw [answered] at shown
            cases shown
            exact listing_leads texts sound present answered
      unfold browseAll turnPages
      apply retells_bind_known (load_retells texts form holds sound.valid pfx real) leads
      intro listing leads
      simp only [view_downloads, view_folders name leads.folders, view_next name leads]
      cases more : listing.nextToken with
      | none =>
          apply retells_done
          simp
      | some next =>
          have proper : some next ≠ some [] := fun same => (leads.next next more).1 (Option.some.inj same)
          apply retells_bind (ih proper)
          intro later
          cases later with
          | none => exact retells_done rfl
          | some listings =>
              apply retells_done
              simp

theorem level_retells (texts : Texts) (form : FormDecoder) (holds : Holds crates storage s store)
    (present : store.buckets.lookup name = some bucket) (patience : Nat) (pfx : Str) :
    Retells faultFree s (browseLevel crates storage texts name patience pfx)
      (turnPages crates storage texts form patience (folderAddress name pfx))
      (relabel (folderAddress name) (ObjectTable.downloadHref name)) := by
  have turned := turn_retells texts form holds present pfx patience (Option.some_ne_none []).symm
  unfold browseLevel
  apply retells_mapped
  have names : (fun listings : Option (List ObjectListing) => relabel (folderAddress name)
      (ObjectTable.downloadHref name) (listings.map fun all =>
        ((all.flatMap ObjectListing.objects).map ObjectRow.key, all.flatMap ObjectListing.folders))) =
      Option.map fun listings => (((listings.flatMap ObjectListing.objects).map ObjectRow.key).map
          (ObjectTable.downloadHref name), (listings.flatMap ObjectListing.folders).map (folderAddress name)) := by
    funext listings
    cases listings <;> rfl
  rw [names]
  exact turned

/-- The crawl ends; its pages are those of the folders, with a link for each key. -/
theorem wp_crawl (texts : Texts) (form : FormDecoder) (holds : Holds crates storage s store)
    (present : store.buckets.lookup name = some bucket) (complete : bucket.Complete s.nameMax)
    {patience depth : Nat} (patient : (Store.scannedKeys bucket).length < patience) (positive : 0 < depth)
    (deep : ∀ key, bucket.Stores key → key.length < depth) :
    wp faultFree (crawl crates storage texts form patience depth name) (fun outcome after =>
      after = s ∧ ∃ folders, outcome = .ok (some (folders.map
        (address (folderAddress name) (ObjectTable.downloadHref name)))) ∧
        Partitions bucket.Stores ['/'] folders) s := by
  have bounded : ∀ key, bucket.Stores key → key.length ≤ depth - 1 := by
    intro key stored
    have := deep key stored
    omega
  have walked := wp_walk (List.cons_ne_nil '/' []) (wp_browseLevel texts holds present complete patient) bounded
    depth [] (by simp only [List.length_nil]; omega) (Nat.zero_le _)
  apply wp_mono (retells_walk (level_retells texts form holds present patience) depth [] _ walked)
  rintro _ _ ⟨rfl, _, rfl, _, folders, rfl, walked⟩
  exact ⟨rfl, folders, rfl, walked_partitions walked⟩

/-! ### The downloads -/

/-- A get reads. -/
theorem wp_getStill (holds : Holds crates storage s store) (name key : Str) :
    wp faultFree (getObject crates storage name key none) (fun _ after => after = s) s := by
  have fetched := (fetch_refines holds name key (fun _ after => after = s)).mpr rfl
  unfold fetchObject at fetched
  rw [wp_bind] at fetched
  apply wp_mono fetched
  rintro outcome after ends
  cases outcome with
  | error e => exact ends
  | ok found =>
      simp only [wp_bind, wp_ioOp, wp_collect] at ends
      exact ends

/-- Fetching a link always ends, with something, and changes nothing. -/
theorem wp_fetchLink (http : HeaderValues) (holds : Holds crates storage s store) (href : Str) :
    wp faultFree (fetchLink crates storage http href) (fun outcome after =>
      after = s ∧ ∃ fetched, outcome = .ok fetched) s := by
  unfold fetchLink
  cases downloadTarget href with
  | none => exact ⟨rfl, _, rfl⟩
  | some target =>
      simp only []
      unfold fetchFile downloadHandler
      rw [wp_bind, wp_attempt, wp_bind, wp_attempt]
      apply wp_mono (wp_getStill holds target.1 target.2)
      rintro outcome after rfl
      cases outcome with
      | error e => exact ⟨rfl, _, rfl⟩
      | ok found =>
          obtain ⟨contentType, answered⟩ := found_response http target.2 found.1 found.2
          simp only [answered]
          cases http.parse (disposition target.2) with
          | none => exact ⟨rfl, _, rfl⟩
          | some value =>
              simp only [Prog.pure_eq, wp_done, fetchStream]
              rw [wp_bind, wp_attempt, wp_collect]
              exact ⟨rfl, _, rfl⟩

/-- What comes back for an object of this type and these bytes. -/
def foundFile (http : HeaderValues) (key contentType : Str) (content : Bytes) : SavedFile :=
  match http.parse (disposition key) with
  | none => .dropped
  | some value => .file ((http.parse contentType).getD (utf8 octetStream)) value content

theorem wp_fetchFound (http : HeaderValues) (holds : Holds crates storage s store) {key : Str}
    {objectMeta : ObjectMeta} {content : Bytes}
    (head : store.headObject storage s.nameMax name key = .ok objectMeta)
    (body : store.bodyOf name key = some content) :
    wp faultFree (fetchFile crates storage http name key) (fun outcome after =>
      after = s ∧ outcome = .ok (foundFile http key objectMeta.contentType content)) s := by
  obtain ⟨inode, bytes, opens⟩ := wp_getFound holds head body
  have fallback : http.parse octetStream = some (utf8 octetStream) := by
    rw [http.parse_eq, if_pos (by decide)]
  have typed : contentTypeValue http objectMeta.contentType =
      pure ((http.parse objectMeta.contentType).getD (utf8 octetStream)) := by
    unfold contentTypeValue
    cases http.parse objectMeta.contentType with
    | some value => rfl
    | none =>
        rw [fallback]
        rfl
  unfold fetchFile downloadHandler
  rw [wp_bind, wp_attempt, wp_bind, wp_attempt, opens]
  simp only [streamOutcome, downloadResponse, typed, foundFile]
  cases http.parse (disposition key) with
  | none => exact ⟨rfl, rfl⟩
  | some value =>
      simp only [unwrap, Prog.pure_eq, Prog.done_bind, wp_done, fetchStream]
      rw [wp_bind, wp_attempt, wp_collect]
      simp only [bytes, List.drop_zero]
      exact ⟨rfl, rfl⟩

theorem version_stored {nameMax : Option Nat} {key : Str} {version : ObjectMeta × Bytes}
    (stored : bucket.version nameMax key = some version) : bucket.Stores key := by
  obtain ⟨_, _, body⟩ := Option.bind_eq_some_iff.mp stored
  obtain ⟨content, own, _⟩ := Option.map_eq_some_iff.mp body
  cases admitted : encodeKey key with
  | error e => simp [admitted, Except.toOption] at own
  | ok encoded =>
      rw [admitted] at own
      exact ⟨encoded, content, admitted, own⟩

/-- A link that may hold the key, for a name that a header value may hold, leads to the version. -/
theorem wp_fetchVersion (http : HeaderValues) (holds : Holds crates storage s store)
    (present : store.buckets.lookup name = some bucket) {key : Str} {version : ObjectMeta × Bytes}
    (stored : bucket.version s.nameMax key = some version) (verbatim : Verbatim key)
    (legal : ∀ b ∈ utf8 (Segments.rest '/' key), isValueByte b = true) :
    wp faultFree (fetchLink crates storage http (ObjectTable.downloadHref name key)) (fun outcome after =>
      after = s ∧ outcome = .ok (downloadOf http key version)) s := by
  have valid := (holds.sound.buckets name bucket present).valid
  obtain ⟨objectMeta, record, body⟩ := Option.bind_eq_some_iff.mp stored
  obtain ⟨content, own, rfl⟩ := Option.map_eq_some_iff.mp body
  have head := (head_record storage valid present key objectMeta).mpr record
  have held : store.bodyOf name key = some content := by
    rw [Store.bodyOf, present]
    exact own
  have named : http.parse (disposition key) = some (utf8 (disposition key)) := by
    rw [disposition_parses, if_pos (List.all_eq_true.mpr legal)]
  have file : foundFile http key objectMeta.contentType content = downloadOf http key (objectMeta, content) := by
    rw [foundFile, named]
    rfl
  unfold fetchLink
  rw [((download_links_reach_iff valid key).mpr verbatim).table, ← file]
  exact wp_fetchFound http holds head held

/-- All links are fetched, in order, and each as it would be alone. -/
theorem wp_fetchLinks (http : HeaderValues) (holds : Holds crates storage s store) (links : List Str) :
    wp faultFree (fetchLinks crates storage http links) (fun outcome after =>
      after = s ∧ ∃ files, outcome = .ok files ∧ files.map Prod.fst = links ∧
        ∀ href ∈ links, ∀ fetched, wp faultFree (fetchLink crates storage http href)
          (fun outcome after => after = s ∧ outcome = .ok fetched) s → (href, fetched) ∈ files) s := by
  induction links with
  | nil => exact ⟨rfl, [], rfl, rfl, by simp⟩
  | cons href rest ih =>
      unfold fetchLinks
      rw [wp_bind]
      apply wp_mono (wp_and_runs (wp_fetchLink http holds href))
      rintro _ _ ⟨⟨rfl, first, rfl⟩, run⟩
      simp only []
      rw [wp_bind]
      apply wp_mono ih
      rintro _ _ ⟨rfl, files, rfl, names, sure⟩
      refine ⟨rfl, _, rfl, congrArg (List.cons href) names, ?_⟩
      intro other member fetched alone
      rcases List.mem_cons.mp member with rfl | later
      · obtain ⟨_, same⟩ := wp_runs alone run
        rw [Except.ok.inj same]
        exact List.mem_cons_self
      · exact List.mem_cons_of_mem _ (sure other later fetched alone)

end Pages

end Ferrobucket
