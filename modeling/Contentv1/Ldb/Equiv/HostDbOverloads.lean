import Contentv1.Ldb.Equiv.HostDb

/-!
# The two overloads of `tryCrawl`

The loop decides on the URLs and the clock alone, so it makes no difference whether the URLs come in
records (`Agree.loop`), and each turn reads nothing but the database that the turns before it left,
so it makes no difference where a batch ends (`tryBatches_eq`).  `overloads_agree` puts the two
together with what each overload puts out.
-/

namespace Contentv1.HostDb

variable {c : Contribs} {db : HostDb} {α β γ : Type} {url : α → Url} {out : α → UrlParsed → β}

/-! ### Records and URLs -/

/-- Everything but the allowed items is the same. -/
structure Agree (acc : TryAcc β) (acc' : TryAcc γ) : Prop where
  db : acc.db = acc'.db
  decisions : acc.decisions = acc'.decisions
  needRobots : acc.needRobots = acc'.needRobots

/-- A turn for an item and one for its URL. -/
theorem Agree.item {acc : TryAcc β} {acc' : TryAcc γ} (h : Agree acc acc')
    (out' : Url → UrlParsed → γ) (item : α × CrawlReads) :
    Agree (tryCrawlItem c url out acc item)
      (tryCrawlItem c id out' acc' (url item.1, item.2)) := by
  obtain ⟨hdb, hdecisions, hneed⟩ := h
  unfold tryCrawlItem
  simp only [id_eq, hdb, hdecisions, hneed]
  by_cases hok : (UrlParsed.ofUrl c (url item.1)).ok = true
  · rw [if_pos hok, if_pos hok]
    exact ⟨rfl, rfl, rfl⟩
  · rw [if_neg hok, if_neg hok]
    exact ⟨rfl, rfl, rfl⟩

theorem Agree.loop (c : Contribs) (url : α → Url) (out : α → UrlParsed → β)
    (out' : Url → UrlParsed → γ) (db : HostDb) (items : List (α × CrawlReads)) :
    Agree (tryCrawlLoop c url out db items)
      (tryCrawlLoop c id out' db (items.map fun item => (url item.1, item.2))) := by
  induction items using List.reverseRecOn with
  | nil => exact ⟨rfl, rfl, rfl⟩
  | append_singleton items item ih =>
    rw [List.map_append, List.map_singleton, tryCrawlLoop_append, tryCrawlLoop_append]
    exact ih.item out' item

/-! ### What is put out -/

/-- The items whose decision is `allow`, in their order. -/
def decidedAllow (items : List (α × CrawlReads)) (decisions : List EHostCrawlDecision) : List α :=
  (items.zip decisions).filterMap fun p => if p.2 = .allow then some p.1.1 else none

theorem allowed_tryCrawlLoop (c : Contribs) (url : α → Url) (out : α → UrlParsed → β)
    (db : HostDb) (items : List (α × CrawlReads)) :
    (tryCrawlLoop c url out db items).allowed
      = (decidedAllow items (tryCrawlLoop c url out db items).decisions).map fun x =>
          out x (UrlParsed.ofUrl c (url x)) := by
  induction items using List.reverseRecOn with
  | nil => rfl
  | append_singleton items item ih =>
    unfold decidedAllow at ih ⊢
    rw [tryCrawlLoop_append, allowed_tryCrawlItem, decisions_tryCrawlItem,
      List.zip_append (length_decisions items).symm, List.filterMap_append, List.map_append, ih]
    congr 1
    split_ifs with h <;> simp [h]

/-! ### Batches -/

/-- The loop from any accumulator adds its decisions to those that are there. -/
theorem foldl_tryCrawlItem (acc : TryAcc β) (items : List (α × CrawlReads)) :
    (items.foldl (tryCrawlItem c url out) acc).decisions
        = acc.decisions ++ (tryCrawlLoop c url out acc.db items).decisions ∧
      (items.foldl (tryCrawlItem c url out) acc).db = (tryCrawlLoop c url out acc.db items).db := by
  induction items using List.reverseRecOn with
  | nil => exact ⟨(List.append_nil _).symm, rfl⟩
  | append_singleton items item ih =>
    obtain ⟨hdecisions, hdb⟩ := ih
    rw [List.foldl_append, List.foldl_cons, List.foldl_nil, tryCrawlLoop_append]
    rw [decisions_tryCrawlItem, decisions_tryCrawlItem, db_tryCrawlItem, db_tryCrawlItem,
      hdecisions, hdb, List.append_assoc]
    exact ⟨rfl, rfl⟩

/-- The decisions on batches that are tried one after the other, and the database in the end. -/
def tryBatches (c : Contribs) (url : α → Url) (out : α → UrlParsed → β) (db : HostDb) :
    List (List (α × CrawlReads)) → List EHostCrawlDecision × HostDb
  | [] => ([], db)
  | batch :: batches =>
    let acc := tryCrawlLoop c url out db batch
    let (decisions, db) := tryBatches c url out acc.db batches
    (acc.decisions ++ decisions, db)

/-- Batches come to the same as one call. -/
theorem tryBatches_eq (c : Contribs) (url : α → Url) (out : α → UrlParsed → β) (db : HostDb)
    (batches : List (List (α × CrawlReads))) :
    tryBatches c url out db batches
      = ((tryCrawlLoop c url out db batches.flatten).decisions,
          (tryCrawlLoop c url out db batches.flatten).db) := by
  induction batches generalizing db with
  | nil => rfl
  | cons batch batches ih =>
    rw [tryBatches, ih, List.flatten_cons]
    have happend : tryCrawlLoop c url out db (batch ++ batches.flatten)
        = batches.flatten.foldl (tryCrawlItem c url out) (tryCrawlLoop c url out db batch) := by
      unfold tryCrawlLoop
      rw [List.foldl_append]
    rw [happend, (foldl_tryCrawlItem _ _).1, (foldl_tryCrawlItem _ _).2]

/-! ### The overloads -/

/-- The URLs of some records, with the same readings of the clock. -/
def urlsOf (items : List (GFQRecord × CrawlReads)) : List (Url × CrawlReads) :=
  items.map fun item => (item.1.url, item.2)

/-- What holds of the two overloads on the same URLs. -/
structure OverloadsAgree (c : Contribs) (db : HostDb) (items : List (GFQRecord × CrawlReads)) :
    Prop where
  agree : Agree (db.tryCrawl c items) (db.tryCrawlUrls c (urlsOf items))
  length : (db.tryCrawl c items).decisions.length = items.length
  allowed : (db.tryCrawl c items).allowed = decidedAllow items (db.tryCrawl c items).decisions
  allowedUrls : (db.tryCrawlUrls c (urlsOf items)).allowed
    = (decidedAllow items (db.tryCrawl c items).decisions).map fun gfq =>
        (UrlParsed.ofUrl c gfq.url).normalized
  batches : ∀ batches, batches.flatten = items →
    tryBatches c GFQRecord.url (fun gfq _ => gfq) db batches
      = ((db.tryCrawl c items).decisions, (db.tryCrawl c items).db)
  batchesOfUrls : ∀ batches, batches.flatten = urlsOf items →
    tryBatches c id (fun _ urlParsed => urlParsed.normalized) db batches
      = ((db.tryCrawl c items).decisions, (db.tryCrawl c items).db)

/-- **The overloads agree**, and so do batches with one call. -/
theorem overloads_agree (c : Contribs) (db : HostDb) (items : List (GFQRecord × CrawlReads)) :
    OverloadsAgree c db items := by
  have hagree : Agree (db.tryCrawl c items) (db.tryCrawlUrls c (urlsOf items)) :=
    .loop c GFQRecord.url _ _ db items
  have hallowed := allowed_tryCrawlLoop c GFQRecord.url (fun gfq _ => gfq) db items
  rw [List.map_id'] at hallowed
  refine ⟨hagree, length_decisions items, hallowed, ?_, ?_, ?_⟩
  · have hurls := allowed_tryCrawlLoop c id (fun _ urlParsed => urlParsed.normalized) db
      (urlsOf items)
    have hdecided : ∀ decisions, decidedAllow (urlsOf items) decisions
        = (decidedAllow items decisions).map GFQRecord.url := by
      intro decisions
      unfold decidedAllow urlsOf
      rw [List.zip_map_left, List.filterMap_map, List.map_filterMap]
      congr 1
      funext ⟨item, decision⟩
      by_cases hallow : decision = .allow <;> simp [hallow]
    rw [hdecided, List.map_map] at hurls
    rw [hagree.decisions]
    exact hurls
  · rintro batches rfl
    exact tryBatches_eq c _ _ db batches
  · intro batches hbatches
    rw [tryBatches_eq, hbatches]
    exact Prod.ext hagree.decisions.symm hagree.db.symm

end Contentv1.HostDb
