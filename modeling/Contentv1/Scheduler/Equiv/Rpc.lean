import Contentv1.Scheduler.Rpc
import Contentv1.Ldb.Equiv.HostDbRun

/-!
# What lost messages leave behind

`SlotsCounted`: `HostDb` counts a crawl for every record that is in a reply of `TryFetchUrls`, is
being fetched, is in a request of `OnFetched`, or was in one of these messages and is lost.

`crawling_eq_count_lost`: with nothing in flight and nothing being fetched, the counter of a host is
the number of its records in the lost messages, so it is 0 if there are none.  A single lost reply
keeps the counter of its host up for good (`crawling_lostReply`).
-/

namespace Contentv1.SchedulerRpc

variable {c : Contribs} {s t : State}

def hostOf (c : Contribs) (gfq : GFQRecord) : Host := (UrlParsed.ofUrl c gfq.url).host

/-- The records for which a crawl is counted. -/
def State.slots (s : State) : List GFQRecord :=
  s.net.flatMap Msg.counted ++ s.fetching.map Prod.snd ++ s.lost

structure SlotsCounted (c : Contribs) (s : State) : Prop where
  counted : HostDb.Counted s.hostDb (s.slots.map (hostOf c))
  parsed : ∀ gfq ∈ s.slots, (UrlParsed.ofUrl c gfq.url).ok = true

theorem slotsCounted_init (c : Contribs) (limits : CrawlLimits) (robots : OrdMap Host Str) :
    SlotsCounted c (.init limits robots) :=
  ⟨HostDb.counted_init limits robots, nofun⟩

/-- Records that only move keep their slots. -/
theorem SlotsCounted.of_perm (hs : SlotsCounted c s) (hperm : s.slots.Perm t.slots)
    (hdb : t.hostDb = s.hostDb) : SlotsCounted c t := by
  constructor
  · rw [hdb]
    exact hs.counted.of_perm (hperm.map (hostOf c))
  · exact fun gfq hgfq => hs.parsed gfq (hperm.mem_iff.mpr hgfq)

/-- Taking one message out of the net. -/
theorem slots_perm_of_msg {msg : Msg} {i : ℕ} (h : s.net[i]? = some msg) :
    s.slots.Perm (msg.counted ++
      ((s.net.eraseIdx i).flatMap Msg.counted ++ s.fetching.map Prod.snd ++ s.lost)) := by
  have hnet : (s.net.flatMap Msg.counted).Perm
      (msg.counted ++ (s.net.eraseIdx i).flatMap Msg.counted) :=
    (Machine.perm_cons_eraseIdx h).flatMap_right Msg.counted
  unfold State.slots
  rw [← List.append_assoc, ← List.append_assoc]
  exact (hnet.append_right _).append_right _

/-- The server allows records: their crawls are counted and the reply has them. -/
theorem slotsCounted_serveTryFetch {i worker : ℕ} {tryUrls : List GFQRecord}
    (tried : List (GFQRecord × CrawlReads)) (hs : SlotsCounted c s)
    (hmsg : s.net[i]? = some (.tryFetchRequest worker tryUrls)) :
    SlotsCounted c { s with
      hostDb := (s.hostDb.tryCrawl c tried).db
      net := s.net.eraseIdx i ++ [.tryFetchReply worker (s.hostDb.tryCrawl c tried).allowed] } := by
  have hslots := slots_perm_of_msg hmsg
  have hperm : (s.slots ++ (s.hostDb.tryCrawl c tried).allowed).Perm (State.slots { s with
      hostDb := (s.hostDb.tryCrawl c tried).db
      net := s.net.eraseIdx i
        ++ [.tryFetchReply worker (s.hostDb.tryCrawl c tried).allowed] }) := by
    refine (hslots.append_right _).trans (List.perm_iff_count.mpr fun b => ?_)
    unfold State.slots
    rw [List.flatMap_append, List.flatMap_singleton]
    simp only [Msg.counted, List.count_append, List.count_nil]
    omega
  constructor
  · have hcounted := hs.counted.tryCrawlLoop c GFQRecord.url (fun gfq _ => gfq) tried
    have hmap := hperm.map (hostOf c)
    rw [List.map_append] at hmap
    unfold hostOf at hmap
    rw [HostDb.map_host_allowed] at hmap
    exact hcounted.of_perm hmap
  · intro gfq hgfq
    rcases List.mem_append.mp (hperm.mem_iff.mpr hgfq) with hgfq | hgfq
    · exact hs.parsed gfq hgfq
    · exact HostDb.ok_of_mem_allowed hgfq

/-- The server takes in results: their crawls end with the request. -/
theorem slotsCounted_serveOnFetched {i worker : ℕ} {results : List FetchResult}
    (hs : SlotsCounted c s) (hmsg : s.net[i]? = some (.onFetchedRequest worker results)) :
    SlotsCounted c { s with
      hostDb := s.hostDb.onFetched c results
      net := s.net.eraseIdx i ++ [.onFetchedReply worker] } := by
  have hslots := slots_perm_of_msg hmsg
  have hrest : State.slots { s with
      hostDb := s.hostDb.onFetched c results
      net := s.net.eraseIdx i ++ [.onFetchedReply worker] }
        = (s.net.eraseIdx i).flatMap Msg.counted ++ s.fetching.map Prod.snd ++ s.lost := by
    unfold State.slots
    rw [List.flatMap_append, List.flatMap_singleton]
    show _ ++ [] ++ _ ++ _ = _
    rw [List.append_nil]
  have hmem : ∀ gfq, gfq ∈ s.slots ↔ gfq ∈ results.map FetchResult.gfq ++
      ((s.net.eraseIdx i).flatMap Msg.counted ++ s.fetching.map Prod.snd ++ s.lost) :=
    fun gfq => hslots.mem_iff
  constructor
  · have hcounted := hs.counted.of_perm (hslots.map (hostOf c))
    rw [List.map_append, Msg.counted, List.map_map] at hcounted
    rw [hrest]
    exact hcounted.onFetched fun r hr =>
      hs.parsed r.gfq ((hmem r.gfq).mpr (List.mem_append_left _ (List.mem_map_of_mem hr)))
  · intro gfq hgfq
    rw [hrest] at hgfq
    exact hs.parsed gfq ((hmem gfq).mpr (List.mem_append_right _ hgfq))

theorem slotsCounted_step {a : Label} (h : step c s a = some t) (hs : SlotsCounted c s) :
    SlotsCounted c t := by
  cases a with
  | callTryFetchUrls worker tryUrls =>
    obtain rfl := Option.some.inj h
    refine hs.of_perm (List.Perm.of_eq ?_) rfl
    unfold State.slots
    rw [List.flatMap_append]
    -- a request has no slot yet
    show _ = _ ++ [] ++ _ ++ _
    rw [List.append_nil]
  | serve i now =>
    rw [step] at h
    rcases hmsg : s.net[i]? with _ | ⟨worker, tryUrls⟩ | _ | ⟨worker, results⟩ | _ <;>
      rw [hmsg] at h
    · cases h
    · dsimp only at h
      split_ifs at h
      obtain rfl := Option.some.inj h
      exact slotsCounted_serveTryFetch (tryUrls.zip now) hs hmsg
    · cases h
    · obtain rfl := Option.some.inj h
      exact slotsCounted_serveOnFetched hs hmsg
    · cases h
  | receive i =>
    rw [step] at h
    rcases hmsg : s.net[i]? with _ | _ | ⟨worker, allowedUrls⟩ | _ | worker <;> rw [hmsg] at h
    · cases h
    · cases h
    · -- the allowed records go from the reply to the worker
      obtain rfl := Option.some.inj h
      refine hs.of_perm ((slots_perm_of_msg hmsg).trans (List.perm_iff_count.mpr fun b => ?_)) rfl
      have hmap : (allowedUrls.map fun gfq => (worker, gfq)).map Prod.snd = allowedUrls := by
        rw [List.map_map]
        exact List.map_id _
      unfold State.slots
      rw [List.map_append, hmap]
      simp only [Msg.counted, List.count_append]
      omega
    · cases h
    · obtain rfl := Option.some.inj h
      exact hs.of_perm (slots_perm_of_msg hmsg) rfl
  | lose i =>
    obtain ⟨msg, hmsg, rfl⟩ := Option.map_eq_some_iff.mp h
    -- the message is gone and its slots stay
    refine hs.of_perm ((slots_perm_of_msg hmsg).trans (List.perm_iff_count.mpr fun b => ?_)) rfl
    unfold State.slots
    simp only [List.count_append]
    omega
  | respond i success curlerror resp =>
    obtain ⟨p, hp, rfl⟩ := Option.map_eq_some_iff.mp h
    -- the record goes from the worker to the request
    have hfetching : (s.fetching.map Prod.snd).Perm
        ([p.2] ++ (s.fetching.eraseIdx i).map Prod.snd) :=
      (Machine.perm_cons_eraseIdx hp).map Prod.snd
    refine hs.of_perm (List.perm_iff_count.mpr fun b => ?_) rfl
    have hcount := hfetching.count_eq b
    unfold State.slots
    rw [List.flatMap_append, List.flatMap_singleton]
    simp only [List.count_append] at hcount ⊢
    show _ = _ + [p.2].count b + _ + _
    omega

/-- **What is left when nothing is going on.**  The counter of a host is the number of its records
in the lost messages. -/
theorem crawling_eq_count_lost (c : Contribs) {limits : CrawlLimits} {robots : OrdMap Host Str}
    {l : List Label} (hrun : Machine.run (step c) (.init limits robots) l = some s)
    (hnet : s.net = []) (hfetching : s.fetching = []) (host : Host) :
    s.hostDb.crawling host = ((s.lost.map (hostOf c)).count host : ℤ) := by
  have hs := Machine.run_induction (P := SlotsCounted c)
    (fun s a t h hs => slotsCounted_step h hs) hrun (slotsCounted_init c limits robots)
  have hslots : s.slots = s.lost := by
    unfold State.slots
    rw [hnet, hfetching]
    rfl
  rw [hs.counted.host, hslots]

def robotsOfA : GFQRecord := ⟨Str.ofString "http://a/robots.txt", 0⟩

/-- A fetch that is allowed, done and reported. -/
def doneFetch : List Label :=
  [.callTryFetchUrls 0 [robotsOfA], .serve 0 [.at 0], .receive 0, .respond 0 true default default,
    .serve 0 [], .receive 0]

/-- A reply that is lost. -/
def lostReply : List Label := [.callTryFetchUrls 1 [robotsOfA], .serve 0 [.at 1], .lose 0]

/-- The lost reply keeps the counter of its host up. -/
theorem crawling_lostReply :
    ∃ s, Machine.run (step .plainHttp) (.init ⟨1, 1, 1, 1, 1⟩ ∅) lostReply = some s ∧
      s.net = [] ∧ s.fetching = [] ∧ s.hostDb.crawling (Str.ofString "a") = 1 :=
  ⟨_, rfl, rfl, rfl, by decide⟩

theorem crawling_eq_count_lost_doneFetch :
    ∃ s, Machine.run (step .plainHttp) (.init ⟨1, 2, 2, 2, 1⟩ ∅) (doneFetch ++ lostReply) = some s ∧
      s.hostDb.crawling (Str.ofString "a")
        = ((s.lost.map (hostOf .plainHttp)).count (Str.ofString "a") : ℤ) := by
  have hrun : ∃ s, Machine.run (step .plainHttp) (.init ⟨1, 2, 2, 2, 1⟩ ∅)
      (doneFetch ++ lostReply) = some s ∧ s.net = [] ∧ s.fetching = [] ∧ s.lost = [robotsOfA] := by
    decide
  obtain ⟨s, hs, hnet, hfetching, -⟩ := hrun
  exact ⟨s, hs, crawling_eq_count_lost .plainHttp hs hnet hfetching (Str.ofString "a")⟩

end Contentv1.SchedulerRpc
