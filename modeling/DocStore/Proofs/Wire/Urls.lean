import DocStore.Proofs.Path.Names
import DocStore.Proofs.Text.Percent
import DocStore.Store.Http

/-!
# Resources told by their URLs

Between the slashes of the URL of a path stand the names of the path as segments (`split_urlPath`),
so that a path is known from its URL whatever its names are (`urlPath_injective`).  What is asked
about the resource stands behind a colon, and no segment has a colon in it.  So a URL tells the
resource and what is asked about it (`Operation.eq_of_url_eq`), and each operation of a store of a
server asks at the URL of its own resource alone (`AsksOnlyAt`).
-/

namespace DocStore

namespace ResourcePath

/-- The segments of a URL, with the name of the collection of all documents before them. -/
def urlSegments (path : ResourcePath) : ResourcePath :=
  ⟨"documents" :: path.segments.map Text.Percent.encode⟩

/-- A URL is the text of its segments, also that of the root. -/
theorem urlPath_eq (path : ResourcePath) : path.urlPath = path.urlSegments.text := by
  obtain ⟨names⟩ := path
  cases names with
  | nil => rfl
  | cons name names =>
      rw [← String.toList_inj, toList_text, urlSegments, List.map_cons, List.map_cons,
        List.map_cons, List.intercalate_cons_cons]
      simp [urlPath, Text.joined, String.toList_intercalate]

/-- Each segment of a URL is that of a name; the first one is that of `documents`. -/
theorem exists_encode_eq_of_mem_urlSegments {path : ResourcePath} {segment : String}
    (h : segment ∈ path.urlSegments.segments) : ∃ name, Text.Percent.encode name = segment := by
  rcases List.mem_cons.1 h with rfl | hname
  · exact ⟨"documents", by decide +kernel⟩
  · obtain ⟨name, -, hsegment⟩ := List.mem_map.1 hname
    exact ⟨name, hsegment⟩

/-- No segment of a URL has a slash in it. -/
theorem isSlashFree_urlSegments (path : ResourcePath) : path.urlSegments.IsSlashFree := by
  intro segment hsegment
  obtain ⟨name, rfl⟩ := exists_encode_eq_of_mem_urlSegments hsegment
  have hslash := @Text.Percent.not_mem_encode 0x2f (by decide) (by decide) name
  simpa [Text.hasChar] using hslash

/-- Between the slashes of a URL stand the names of the path. -/
theorem split_urlPath (path : ResourcePath) :
    Text.split '/' path.urlPath = "documents" :: path.segments.map Text.Percent.encode := by
  rw [urlPath_eq, split_text path.isSlashFree_urlSegments (List.cons_ne_nil _ _), urlSegments]

/-- Paths with the same URL are the same. -/
theorem urlPath_injective : Function.Injective urlPath := by
  intro p q h
  have hpieces := congrArg (Text.split '/') h
  rw [split_urlPath, split_urlPath, List.cons.injEq] at hpieces
  exact ext_segments (List.map_injective_iff.2 Text.Percent.encode_injective hpieces.2)

/-- The URL of a path has no colon in it. -/
theorem ne_colon_of_mem_urlPath {path : ResourcePath} {c : Char} (h : c ∈ path.urlPath.toList) :
    (c == ':') = false := by
  rw [beq_eq_false_iff_ne]
  rintro rfl
  rw [urlPath_eq, toList_text] at h
  rcases Text.mem_intercalate h with hslash | ⟨_, htext, hcolon⟩
  · cases hslash
  · obtain ⟨segment, hsegment, rfl⟩ := List.mem_map.1 htext
    obtain ⟨name, rfl⟩ := exists_encode_eq_of_mem_urlSegments hsegment
    exact @Text.Percent.not_mem_encode 0x3a (by decide) (by decide) name hcolon

end ResourcePath

namespace Http

variable {σ α : Type}

/-! ## What is asked about a resource -/

/-- What a store asks the server about a resource. -/
inductive Operation
  /-- The document at the path. -/
  | document
  /-- The documents of a query below the path. -/
  | runQuery
  /-- The names of the collections directly below the path. -/
  | listCollectionIds
  /-- Writes to documents below the path. -/
  | commit
  deriving DecidableEq

namespace Operation

/-- What stands behind the URL of the resource. -/
def suffix : Operation → String
  | document => ""
  | runQuery => ":runQuery"
  | listCollectionIds => ":listCollectionIds"
  | commit => ":commit"

/-- The URL at which the operation is asked for. -/
def url (op : Operation) (path : ResourcePath) : String := path.urlPath ++ op.suffix

theorem suffix_injective : Function.Injective suffix := by
  intro op op'
  cases op <;> cases op' <;> decide

/-- A suffix starts with a colon, if there is one. -/
theorem ends_suffix (op : Operation) : Text.Ends (· == ':') op.suffix.toList := by
  cases op with
  | document => exact Text.ends_nil _
  | runQuery | listCollectionIds | commit =>
      rintro c ⟨⟩
      rfl

/-- The URL tells the operation and the resource. -/
theorem eq_of_url_eq {op op' : Operation} {p q : ResourcePath} (h : op.url p = op'.url q) :
    op = op' ∧ p = q := by
  have hlists := congrArg String.toList h
  rw [url, url, String.toList_append, String.toList_append] at hlists
  obtain ⟨hpath, hsuffix⟩ := Text.eq_of_append_eq
    (fun _ => ResourcePath.ne_colon_of_mem_urlPath)
    (fun _ => ResourcePath.ne_colon_of_mem_urlPath) op.ends_suffix op'.ends_suffix hlists
  exact ⟨suffix_injective (String.toList_inj.1 hsuffix),
    ResourcePath.urlPath_injective (String.toList_inj.1 hpath)⟩

/-- A name with the suffix of an operation in it, and a name with a slash. -/
example : runQuery.url ⟨["users", "ann:runQuery", "ä/b"]⟩
    = "documents/users/ann%3ArunQuery/%C3%A4%2Fb:runQuery" := by decide +kernel

end Operation

/-! ## What a store asks for -/

namespace Server

/-- The server as it is reached at one URL; requests to other URLs are refused. -/
def onlyAt (server : Server σ) (url : String) : Server σ :=
  { server with
    send := fun request s =>
      if request.path = url then server.send request s else (.refused, s) }

theorem exchange_onlyAt (server : Server σ) (request : Request) :
    (server.onlyAt request.path).exchange request = server.exchange request := by
  simp only [exchange, onlyAt, if_true]

theorem fetch_onlyAt (server : Server σ) (url : String) :
    (server.onlyAt url).fetch url = server.fetch url := by
  have hexchange (token : Option String) :=
    server.exchange_onlyAt { method := .get, path := url, token }
  unfold fetch
  simp only [hexchange]
  rfl

theorem call_onlyAt (server : Server σ) (url : String) (body : Json) :
    (server.onlyAt url).call url body = server.call url body := by
  have hexchange (token : Option String) :=
    server.exchange_onlyAt { method := .post, path := url, token, body := some body }
  unfold call
  simp only [hexchange]
  rfl

end Server

/-- A step asks the server for nothing but what is at the URL. -/
def AsksOnlyAt (url : String) (step : Server σ → Action σ α) : Prop :=
  ∀ server, step (server.onlyAt url) = step server

/-- Every page of names is asked for at the same URL. -/
theorem asksOnlyAt_collectionNames (url : String) (rounds : Nat) (pageToken : Option String) :
    AsksOnlyAt (σ := σ) url fun server => collectionNames server url rounds pageToken := by
  intro server
  induction rounds generalizing pageToken with
  | zero => rfl
  | succ rounds ih =>
      simp only [collectionNames, Server.call_onlyAt, ih]

variable (db : DatabaseId)

theorem asksOnlyAt_get (key : DocumentKey) :
    AsksOnlyAt (Operation.document.url key.path)
      fun server : Server σ => (datastore db server).get key := by
  intro server
  have hfetch := server.fetch_onlyAt (Operation.document.url key.path)
  have hurl : Operation.document.url key.path = key.path.urlPath := String.append_empty
  rw [hurl] at hfetch
  simp only [hurl, datastore, hfetch]

/-- A query for the last documents is asked for where the one for the first documents is. -/
theorem asksOnlyAt_query (q : StoreQuery) :
    AsksOnlyAt (Operation.runQuery.url q.source.parent)
      fun server : Server σ => (datastore db server).query q := by
  intro server
  have hsource : q.toFirst.source = q.source := by
    unfold StoreQuery.toFirst
    split <;> rfl
  have hcall := server.call_onlyAt (Operation.runQuery.url q.source.parent)
  simp only [Operation.url, Operation.suffix] at hcall ⊢
  simp only [datastore, hsource, hcall]

theorem asksOnlyAt_collections (key : DocumentKey) :
    AsksOnlyAt (Operation.listCollectionIds.url key.path)
      fun server : Server σ => (datastore db server).collections key := by
  intro server
  have hnames (rounds : Nat) :=
    asksOnlyAt_collectionNames (Operation.listCollectionIds.url key.path) rounds none server
  simp only [Operation.url, Operation.suffix] at hnames ⊢
  simp only [datastore, hnames]
  rfl

theorem asksOnlyAt_commit (writes : List Write) :
    AsksOnlyAt (Operation.commit.url .root)
      fun server : Server σ => (datastore db server).commit writes := by
  intro server
  have hcall := server.call_onlyAt (Operation.commit.url .root)
  have hurl : Operation.commit.url .root = "documents:commit" := rfl
  rw [hurl] at hcall ⊢
  simp only [datastore, hcall]

/-- **URLs of resources.**  A URL tells the operation and the resource, so that no name of a
document or a collection is mistaken for an operation, for names further down or for the root.  What
a store does for a document, a query, a list of collections or a commit depends on nothing that the
server would answer at another URL. -/
theorem urls_identify_resources :
    (∀ (op op' : Operation) (p q : ResourcePath), op.url p = op'.url q ↔ op = op' ∧ p = q) ∧
      ∀ (σ : Type) (db : DatabaseId),
        (∀ key, AsksOnlyAt (Operation.document.url key.path)
          fun server : Server σ => (datastore db server).get key) ∧
        (∀ q, AsksOnlyAt (Operation.runQuery.url q.source.parent)
          fun server : Server σ => (datastore db server).query q) ∧
        (∀ key, AsksOnlyAt (Operation.listCollectionIds.url key.path)
          fun server : Server σ => (datastore db server).collections key) ∧
        ∀ writes, AsksOnlyAt (Operation.commit.url .root)
          fun server : Server σ => (datastore db server).commit writes := by
  refine ⟨fun op op' p q => ⟨Operation.eq_of_url_eq, ?_⟩, fun σ db => ⟨?_, ?_, ?_, ?_⟩⟩
  · rintro ⟨rfl, rfl⟩
    rfl
  · exact fun key => asksOnlyAt_get db key
  · exact fun q => asksOnlyAt_query db q
  · exact fun key => asksOnlyAt_collections db key
  · exact fun writes => asksOnlyAt_commit db writes

end Http

end DocStore
