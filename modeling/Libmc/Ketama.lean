import Libmc.Common
import Libmc.Support.Decimal
import Libmc.Support.HashRing

/-!
# Consistent hashing

`KetamaSelector` keeps a hundred points for each server, sorted by hash, and sends a key to the
server that owns the first point from the key's hash on. `hash_md5` and the hash function of the
keys are parameters.
-/

namespace Libmc

/-- What the ring uses of a `Connection` after `init`; `aliasName` is `m_name` if `hasAlias()`. -/
structure Server where
  host : Bytes
  port : ℕ
  aliasName : Option Bytes
  deriving DecidableEq, Repr

/-- `continuum_item_t`; `conn` is `&conns[conn_idx]`, and the hash is only compared. -/
structure ContinuumItem where
  hashValue : ℕ
  connIdx : ℕ
  deriving DecidableEq, Repr

/-- `KetamaSelector`; the hash function is `none` for `NULL`. -/
structure KetamaSelector where
  continuum : List ContinuumItem := []
  nServers : ℕ := 0
  useFailover : Bool := false
  hashFunction : Option (Bytes → ℕ) := none

namespace KetamaSelector

/-- `s_pointerPerServer / s_pointerPerHash`. -/
def pointerPerServer : ℕ := 100

/-- `MC_DEFAULT_PORT`. -/
def defaultPort : ℕ := 11211

/-- `KetamaSelector::reset`. -/
def reset (ks : KetamaSelector) : KetamaSelector := { ks with continuum := [], nServers := 0 }

def sortHost (conn : Server) (pointerIdx : ℕ) : Bytes :=
  match conn.aliasName with
  | some name => name ++ ascii "-" ++ Decimal.numeral pointerIdx
  | none =>
    if conn.port ≠ defaultPort then
      conn.host ++ ascii ":" ++ Decimal.numeral conn.port ++ ascii "-" ++ Decimal.numeral pointerIdx
    else conn.host ++ ascii "-" ++ Decimal.numeral pointerIdx

/-- The points of the `i`-th server. -/
def serverPoints (hashMd5 : Bytes → ℕ) (conn : Server) (i : ℕ) : List ContinuumItem :=
  (List.range pointerPerServer).map fun pointerIdx => ⟨hashMd5 (sortHost conn pointerIdx), i⟩

/-- The points that `addServers` pushes. -/
def points (hashMd5 : Bytes → ℕ) (conns : List Server) : List ContinuumItem :=
  (conns.zipIdx).flatMap fun c => serverPoints hashMd5 c.1 c.2

/-- `continuum_item_s::compare`, as the order of the sort. -/
def le (left right : ContinuumItem) : Bool := left.hashValue ≤ right.hashValue

/-- `KetamaSelector::addServers`. -/
def addServers (hashMd5 : Bytes → ℕ) (ks : KetamaSelector) (conns : List Server) :
    KetamaSelector :=
  { ks with
    continuum := (ks.continuum ++ points hashMd5 conns).mergeSort le
    nServers := conns.length }

/-- `end()` of the continuum. -/
def endIt (ks : KetamaSelector) : ℕ := ks.continuum.length

/-- `conn_idx` of the item at an iterator. -/
def connAt (ks : KetamaSelector) (it : ℕ) : ℕ := (ks.continuum[it]?.map (·.connIdx)).getD 0

/-- Going back to the beginning at the end of the continuum. -/
def wrap (ks : KetamaSelector) (it : ℕ) : ℕ := if it = ks.endIt then 0 else it

/-- `std::lower_bound` for a hash. -/
def lowerBound (ks : KetamaSelector) (hashValue : ℕ) : ℕ :=
  HashRing.lowerBound ContinuumItem.hashValue ks.continuum hashValue

/-- The point of a key: the first switch of `getServerIt` and the wrap after it. -/
def primaryIt (hashMd5 : Bytes → ℕ) (ks : KetamaSelector) (key : Bytes) : ℕ :=
  ks.wrap (if ks.nServers = 1 then 0 else ks.lowerBound (ks.hashFunction.getD hashMd5 key))

section

variable {σ : Type} (tryReconnect : ℕ → σ → Bool × σ)

/-- The loop over the points of other servers, for at most `maxIter` rounds. -/
def failover (ks : KetamaSelector) (originConn : ℕ) : ℕ → ℕ → σ → ℕ × σ
  | 0, _, s => (ks.endIt, s)
  | maxIter + 1, it, s =>
    let it := ks.wrap (it + 1)
    if ks.connAt it ≠ originConn then
      match tryReconnect (ks.connAt it) s with
      | (true, s) => (it, s)
      | (false, s) => failover ks originConn maxIter it s
    else failover ks originConn maxIter it s

/-- `KetamaSelector::getServerIt`, with `Connection::tryReconnect(false)` on the connections. -/
def getServerIt (hashMd5 : Bytes → ℕ) (ks : KetamaSelector) (key : Bytes) (checkAlive : Bool)
    (s : σ) : ℕ × σ :=
  if ks.nServers = 0 then (ks.endIt, s)
  else
    let it := ks.primaryIt hashMd5 key
    let originConn := ks.connAt it
    match if checkAlive then tryReconnect originConn s else (true, s) with
    | (true, s) => (it, s)
    | (false, s) =>
      if ks.useFailover then failover tryReconnect ks originConn ks.continuum.length it s
      else (ks.endIt, s)

/-- `KetamaSelector::getServer`. -/
def getServer (hashMd5 : Bytes → ℕ) (ks : KetamaSelector) (key : Bytes) (checkAlive : Bool)
    (s : σ) : ℤ × σ :=
  let (it, s) := getServerIt tryReconnect hashMd5 ks key checkAlive s
  (if it = ks.endIt then -1 else ks.connAt it, s)

/-- `KetamaSelector::getConn`, the index of the connection. -/
def getConn (hashMd5 : Bytes → ℕ) (ks : KetamaSelector) (key : Bytes) (checkAlive : Bool)
    (s : σ) : Option ℕ × σ :=
  let (it, s) := getServerIt tryReconnect hashMd5 ks key checkAlive s
  (if it = ks.endIt then none else some (ks.connAt it), s)

end

/-! ### The ring -/

variable {hashMd5 : Bytes → ℕ} {ks : KetamaSelector} {conns conns' : List Server}
  {p : ContinuumItem} {key : Bytes} {i : ℕ}

theorem mem_points : p ∈ points hashMd5 conns ↔ ∃ conn pointerIdx,
    conns[p.connIdx]? = some conn ∧ pointerIdx < pointerPerServer ∧
      p.hashValue = hashMd5 (sortHost conn pointerIdx) := by
  unfold points serverPoints
  simp only [List.mem_flatMap, List.mem_map, List.mem_range, Prod.exists, List.mem_zipIdx_iff_getElem?]
  constructor
  · rintro ⟨conn, i, hconn, j, hj, rfl⟩
    exact ⟨conn, j, hconn, hj, rfl⟩
  · rintro ⟨conn, j, hconn, hj, hp⟩
    exact ⟨conn, p.connIdx, hconn, j, hj, by rw [← hp]⟩

theorem continuum_perm (hashMd5 : Bytes → ℕ) (ks : KetamaSelector) (conns : List Server) :
    (addServers hashMd5 ks.reset conns).continuum.Perm (points hashMd5 conns) :=
  List.mergeSort_perm (points hashMd5 conns) le

theorem continuum_sorted (hashMd5 : Bytes → ℕ) (ks : KetamaSelector) (conns : List Server) :
    (addServers hashMd5 ks.reset conns).continuum.Pairwise fun p q => p.hashValue ≤ q.hashValue := by
  have hsorted : ((points hashMd5 conns).mergeSort le).Pairwise fun p q => le p q = true := by
    refine List.pairwise_mergeSort (fun a b c hab hbc => ?_) (fun a b => ?_) _
    · exact decide_eq_true ((of_decide_eq_true hab).trans (of_decide_eq_true hbc))
    · rcases Nat.le_total a.hashValue b.hashValue with h | h
      · simp [le, h]
      · simp [le, h]
  exact hsorted.imp fun h => of_decide_eq_true h

theorem continuum_length (hashMd5 : Bytes → ℕ) (ks : KetamaSelector) (conns : List Server) :
    (addServers hashMd5 ks.reset conns).continuum.length = conns.length * pointerPerServer := by
  rw [(continuum_perm hashMd5 ks conns).length_eq]
  unfold points
  rw [List.length_flatMap]
  simp [serverPoints]

/-- The first point of the ring from a hash on. -/
def IsPrimary (hashMd5 : Bytes → ℕ) (conns : List Server) (hashValue : ℕ) (p : ContinuumItem) :
    Prop :=
  HashRing.IsSuccessor ContinuumItem.hashValue {q | q ∈ points hashMd5 conns} hashValue p

theorem IsPrimary.of_mem (hp : p ∈ points hashMd5 conns) :
    IsPrimary hashMd5 conns p.hashValue p :=
  HashRing.IsSuccessor.of_mem (Set.mem_ofPred.2 hp)

theorem length_pos (hne : conns ≠ []) (hashMd5 : Bytes → ℕ) (ks : KetamaSelector) :
    0 < (addServers hashMd5 ks.reset conns).continuum.length := by
  rw [continuum_length]
  exact Nat.mul_pos (List.length_pos_of_ne_nil hne) (by decide)

/-- The lower bound, wrapped, finds the first point. -/
theorem lowerBound_isPrimary (hne : conns ≠ []) (hashMd5 : Bytes → ℕ) (ks : KetamaSelector)
    (hashValue : ℕ) : ∃ p, IsPrimary hashMd5 conns hashValue p ∧
      (addServers hashMd5 ks.reset conns).continuum[(addServers hashMd5 ks.reset conns).wrap
        ((addServers hashMd5 ks.reset conns).lowerBound hashValue)]? = some p := by
  have hpos := length_pos hne hashMd5 ks
  have hperm := continuum_perm hashMd5 ks conns
  have hsorted := continuum_sorted hashMd5 ks conns
  generalize addServers hashMd5 ks.reset conns = ks' at *
  have hlt : ks'.wrap (ks'.lowerBound hashValue) < ks'.continuum.length := by
    have hle : ks'.lowerBound hashValue ≤ ks'.continuum.length := List.findIdx_le_length
    unfold wrap endIt
    split_ifs <;> omega
  refine ⟨_, ?_, List.getElem?_eq_getElem hlt⟩
  have hset : {q | q ∈ points hashMd5 conns} = {q | q ∈ ks'.continuum} :=
    Set.ext fun q => hperm.mem_iff.symm
  unfold IsPrimary
  rw [hset]
  exact HashRing.isSuccessor_lowerBound hsorted (List.getElem?_eq_getElem hlt)

/-- **The key's point.** The iterator is in the ring, and its server owns the first point from the
key's hash on. -/
theorem primaryIt_spec (hne : conns ≠ []) (hashMd5 : Bytes → ℕ) (ks : KetamaSelector) (key : Bytes) :
    let ks' := addServers hashMd5 ks.reset conns
    ks'.primaryIt hashMd5 key < ks'.endIt ∧
      ∃ p, IsPrimary hashMd5 conns (ks.hashFunction.getD hashMd5 key) p ∧
        ks'.connAt (ks'.primaryIt hashMd5 key) = p.connIdx := by
  obtain ⟨p, hp, hat⟩ := lowerBound_isPrimary hne hashMd5 ks (ks.hashFunction.getD hashMd5 key)
  intro ks'
  by_cases h1 : conns.length = 1
  · -- the shortcut: every point belongs to the only server
    have hprimary : ks'.primaryIt hashMd5 key = 0 := by
      have hn : ks'.nServers = 1 := h1
      unfold primaryIt wrap
      rw [if_pos hn]
      split_ifs <;> rfl
    have hpos : 0 < ks'.continuum.length := length_pos hne _ _
    have hidx : ∀ q ∈ points hashMd5 conns, q.connIdx = 0 := fun q hq => by
      obtain ⟨conn, -, hconn, -⟩ := mem_points.1 hq
      have := (List.getElem?_eq_some_iff.1 hconn).1
      omega
    refine ⟨hprimary ▸ hpos, p, hp, ?_⟩
    have hzero : ks'.continuum[0] ∈ points hashMd5 conns :=
      (continuum_perm hashMd5 ks conns).mem_iff.1 (List.getElem_mem hpos)
    rw [hprimary, hidx p hp.1]
    unfold connAt
    rw [List.getElem?_eq_getElem hpos]
    exact hidx _ hzero
  · have hprimary : ks'.primaryIt hashMd5 key =
        ks'.wrap (ks'.lowerBound (ks.hashFunction.getD hashMd5 key)) := by
      have hn : ¬ ks'.nServers = 1 := h1
      unfold primaryIt
      rw [if_neg hn]
      rfl
    rw [hprimary]
    refine ⟨(List.getElem?_eq_some_iff.1 hat).1, p, hp, ?_⟩
    unfold connAt
    rw [hat]
    rfl

/-- **`getServer` without the liveness check**: the owner of the first point from the key's hash
on, and `-1` only without servers. -/
theorem getServer_spec {σ : Type} (tryReconnect : ℕ → σ → Bool × σ) (hashMd5 : Bytes → ℕ)
    (ks : KetamaSelector) (conns : List Server) (key : Bytes) (s : σ) :
    let server := (getServer tryReconnect hashMd5 (addServers hashMd5 ks.reset conns) key false s).1
    (conns = [] ∧ server = -1) ∨
      ∃ p, IsPrimary hashMd5 conns (ks.hashFunction.getD hashMd5 key) p ∧ server = p.connIdx := by
  intro server
  rcases eq_or_ne conns [] with rfl | hne
  · refine .inl ⟨rfl, ?_⟩
    show (if _ then _ else _) = _
    exact if_pos rfl
  · obtain ⟨hlt, p, hp, hconn⟩ := primaryIt_spec hne hashMd5 ks key
    refine .inr ⟨p, hp, ?_⟩
    have hn : ¬ conns.length = 0 := fun h => hne (List.length_eq_zero_iff.1 h)
    have hit : getServerIt tryReconnect hashMd5 (addServers hashMd5 ks.reset conns) key false s =
        ((addServers hashMd5 ks.reset conns).primaryIt hashMd5 key, s) := by
      unfold getServerIt
      rw [if_neg (show ¬ (addServers hashMd5 ks.reset conns).nServers = 0 from hn)]
      rfl
    show (getServer tryReconnect hashMd5 (addServers hashMd5 ks.reset conns) key false s).1 = _
    unfold getServer
    rw [hit]
    show (if _ then _ else _) = _
    rw [if_neg hlt.ne, hconn]

/-! ### Two rings -/

/-- The server with this index, none for `-1`. -/
def serverAt (conns : List Server) (i : ℤ) : Option Server := if i < 0 then none else conns[i.toNat]?

/-- The points of the servers, with their owners in the place of the indices. -/
def ownedPoints (hashMd5 : Bytes → ℕ) (conns : List Server) : Set (ℕ × Server) :=
  {q | q.2 ∈ conns ∧ ∃ pointerIdx < pointerPerServer, q.1 = hashMd5 (sortHost q.2 pointerIdx)}

/-- The points have pairwise distinct hash values. -/
def Distinct (hashMd5 : Bytes → ℕ) (conns : List Server) : Prop :=
  ((points hashMd5 conns).map ContinuumItem.hashValue).Nodup

theorem Distinct.perm (h : Distinct hashMd5 conns) (hperm : conns'.Perm conns) :
    Distinct hashMd5 conns' := by
  have hhashes : ∀ conns : List Server, (points hashMd5 conns).map ContinuumItem.hashValue =
      conns.flatMap fun conn => (List.range pointerPerServer).map fun pointerIdx =>
        hashMd5 (sortHost conn pointerIdx) := by
    intro conns
    have hfst : conns = conns.zipIdx.map Prod.fst := (List.zipIdx_map_fst 0 conns).symm
    conv_rhs => rw [hfst, List.flatMap_map]
    unfold points serverPoints
    rw [List.map_flatMap]
    refine List.flatMap_congr fun c _ => ?_
    rw [List.map_map]
    rfl
  unfold Distinct at h ⊢
  rw [hhashes] at h ⊢
  exact (hperm.flatMap_right _).nodup_iff.2 h

theorem Distinct.injOn (h : Distinct hashMd5 conns) :
    (ownedPoints hashMd5 conns).InjOn Prod.fst := by
  rintro ⟨a, c⟩ ⟨hc, j, hj, ha⟩ ⟨b, d⟩ ⟨hd, k, hk, hb⟩ hab
  obtain ⟨m, hm⟩ := List.mem_iff_getElem?.1 hc
  obtain ⟨n, hn⟩ := List.mem_iff_getElem?.1 hd
  have hp : (⟨a, m⟩ : ContinuumItem) ∈ points hashMd5 conns := mem_points.2 ⟨c, j, hm, hj, ha⟩
  have hq : (⟨b, n⟩ : ContinuumItem) ∈ points hashMd5 conns := mem_points.2 ⟨d, k, hn, hk, hb⟩
  have heq := List.inj_on_of_nodup_map h hp hq hab
  obtain rfl : m = n := congrArg ContinuumItem.connIdx heq
  rw [hm] at hn
  exact Prod.ext hab (Option.some.inj hn)

theorem IsPrimary.owner {hashValue : ℕ} (h : IsPrimary hashMd5 conns hashValue p) :
    ∃ conn, serverAt conns p.connIdx = some conn ∧ HashRing.IsSuccessor Prod.fst
      (ownedPoints hashMd5 conns) hashValue (p.hashValue, conn) := by
  obtain ⟨conn, j, hconn, hj, hp⟩ := mem_points.1 h.1
  refine ⟨conn, hconn, HashRing.IsSuccessor.transfer h
    ⟨List.mem_of_getElem? hconn, j, hj, hp⟩ rfl ?_⟩
  rintro ⟨b, d⟩ ⟨hd, k, hk, hb⟩
  obtain ⟨n, hn⟩ := List.mem_iff_getElem?.1 hd
  exact ⟨⟨b, n⟩, mem_points.2 ⟨d, k, hn, hk, hb⟩, rfl⟩

theorem serverAt_getServer {σ : Type} (tryReconnect : ℕ → σ → Bool × σ) (hashMd5 : Bytes → ℕ)
    (ks : KetamaSelector) (conns : List Server) (key : Bytes) (s : σ) :
    let server := (getServer tryReconnect hashMd5 (addServers hashMd5 ks.reset conns) key false s).1
    (conns = [] ∧ serverAt conns server = none) ∨ ∃ a conn, serverAt conns server = some conn ∧
      HashRing.IsSuccessor Prod.fst (ownedPoints hashMd5 conns)
        (ks.hashFunction.getD hashMd5 key) (a, conn) := by
  intro server
  rcases getServer_spec tryReconnect hashMd5 ks conns key s with ⟨hnil, hserver⟩ | ⟨p, hp, hserver⟩
  · refine .inl ⟨hnil, ?_⟩
    rw [show server = -1 from hserver]
    rfl
  · obtain ⟨conn, hat, hsucc⟩ := hp.owner
    exact .inr ⟨p.hashValue, conn, (congrArg (serverAt conns) hserver).trans hat, hsucc⟩

theorem mem_insert_of_mem {α : Type*} {pre post : List α} {a b : α} (h : b ∈ pre ++ post) :
    b ∈ pre ++ a :: post := by
  rw [List.mem_append] at h ⊢
  exact h.imp_right (List.mem_cons_of_mem a)

theorem mem_of_getElem?_insert {α : Type*} {pre post : List α} {a b : α} {n : ℕ}
    (h : (pre ++ a :: post)[n]? = some b) (hn : n ≠ pre.length) : b ∈ pre ++ post := by
  rcases Nat.lt_or_ge n pre.length with hlt | hge
  · rw [List.getElem?_append_left hlt] at h
    exact List.mem_append_left _ (List.mem_of_getElem? h)
  · rw [List.getElem?_append_right hge] at h
    obtain ⟨k, hk⟩ : ∃ k, n - pre.length = k + 1 := ⟨n - pre.length - 1, by omega⟩
    rw [hk, List.getElem?_cons_succ] at h
    exact List.mem_append_right _ (List.mem_of_getElem? h)

theorem ownedPoints_perm (h : conns'.Perm conns) :
    ownedPoints hashMd5 conns' = ownedPoints hashMd5 conns :=
  Set.ext fun _ => and_congr_left' h.mem_iff

/-- **Consistent hashing.** Without the liveness check a key goes to the server that owns the first
point from the key's hash on. If the points have distinct hashes, the order of the servers does not
matter, and another server takes over keys but moves none between the others. -/
theorem getServer_consistent {σ : Type} (tryReconnect : ℕ → σ → Bool × σ) (s : σ)
    (hashMd5 : Bytes → ℕ) (ks : KetamaSelector) (conns : List Server)
    (hd : Distinct hashMd5 conns) (key : Bytes) :
    let server := fun l : List Server =>
      (getServer tryReconnect hashMd5 (addServers hashMd5 ks.reset l) key false s).1
    ((conns = [] ∧ server conns = -1) ∨ ∃ p,
      IsPrimary hashMd5 conns (ks.hashFunction.getD hashMd5 key) p ∧ server conns = p.connIdx) ∧
    (∀ conns' : List Server, conns'.Perm conns →
      serverAt conns' (server conns') = serverAt conns (server conns)) ∧
    (∀ (pre post : List Server) (conn : Server), conns = pre ++ post →
      server (pre ++ conn :: post) = pre.length ∨
        serverAt (pre ++ conn :: post) (server (pre ++ conn :: post)) =
          serverAt conns (server conns)) := by
  intro server
  refine ⟨getServer_spec tryReconnect hashMd5 ks conns key s, fun conns' hperm => ?_,
    fun pre post conn hconns => ?_⟩
  · rcases serverAt_getServer tryReconnect hashMd5 ks conns key s with
      ⟨rfl, hserver⟩ | ⟨a, c, hserver, hsucc⟩
    · rw [List.perm_nil.1 hperm]
    · rcases serverAt_getServer tryReconnect hashMd5 ks conns' key s with
        ⟨rfl, hserver'⟩ | ⟨b, d, hserver', hsucc'⟩
      · rw [List.nil_perm.1 hperm]
      · rw [ownedPoints_perm hperm] at hsucc'
        have heq := hsucc.unique hd.injOn hsucc'
        exact hserver'.trans ((congrArg (some ∘ Prod.snd) heq.symm).trans hserver.symm)
  · refine or_iff_not_imp_left.2 fun hnew => ?_
    rcases getServer_spec tryReconnect hashMd5 ks (pre ++ conn :: post) key s with
      ⟨hnil, -⟩ | ⟨p, hp, hserver⟩
    · exact absurd hnil (by simp)
    · obtain ⟨d, hat, hsucc⟩ := hp.owner
      have hold : d ∈ conns := by
        have hidx : p.connIdx ≠ pre.length := fun h => hnew (hserver.trans (congrArg _ h))
        rw [hconns]
        exact mem_of_getElem?_insert hat hidx
      have hsub : ownedPoints hashMd5 conns ⊆ ownedPoints hashMd5 (pre ++ conn :: post) :=
        fun q hq => ⟨mem_insert_of_mem (hconns ▸ hq.1), hq.2⟩
      have hsucc' := hsucc.of_subset hsub ⟨hold, hsucc.1.2⟩
      rcases serverAt_getServer tryReconnect hashMd5 ks conns key s with
        ⟨rfl, -⟩ | ⟨a, c, hserver', hsuccc⟩
      · cases hold
      · have heq := hsucc'.unique hd.injOn hsuccc
        exact ((congrArg (serverAt _) hserver).trans hat).trans
          ((congrArg (some ∘ Prod.snd) heq).trans hserver'.symm)

/-- A hash for two servers whose points alternate. -/
def alternating (bs : Bytes) : ℕ :=
  2 * Decimal.value (bs.drop 2) + if bs.head? = some 97 then 0 else 1

theorem distinct_alternating :
    Distinct alternating [⟨ascii "a", defaultPort, none⟩, ⟨ascii "b", defaultPort, none⟩] := by
  have ha (n : ℕ) : alternating (sortHost ⟨ascii "a", defaultPort, none⟩ n) = 2 * n := by
    show 2 * Decimal.value (Decimal.numeral n) + 0 = 2 * n
    rw [Decimal.value_numeral, Nat.add_zero]
  have hb (n : ℕ) : alternating (sortHost ⟨ascii "b", defaultPort, none⟩ n) = 2 * n + 1 := by
    show 2 * Decimal.value (Decimal.numeral n) + 1 = 2 * n + 1
    rw [Decimal.value_numeral]
  unfold Distinct points serverPoints
  simp only [List.zipIdx_cons, List.zipIdx_nil, List.flatMap_cons, List.flatMap_nil, List.append_nil,
    List.map_append, List.map_map, Function.comp_def, ha, hb]
  refine List.Nodup.append ?_ ?_ fun x hx hx' => ?_
  · exact List.nodup_range.map fun m n h => by omega
  · exact List.nodup_range.map fun m n h => by omega
  · obtain ⟨m, -, rfl⟩ := List.mem_map.1 hx
    obtain ⟨n, -, hn⟩ := List.mem_map.1 hx'
    omega

theorem getServer_consistent_swap :
    serverAt [⟨ascii "b", defaultPort, none⟩, ⟨ascii "a", defaultPort, none⟩]
        (getServer (fun _ s => (true, s)) alternating (addServers alternating
          { hashFunction := some List.length : KetamaSelector }.reset
          [⟨ascii "b", defaultPort, none⟩, ⟨ascii "a", defaultPort, none⟩]) (ascii "key") false ()).1 =
      serverAt [⟨ascii "a", defaultPort, none⟩, ⟨ascii "b", defaultPort, none⟩]
        (getServer (fun _ s => (true, s)) alternating (addServers alternating
          { hashFunction := some List.length : KetamaSelector }.reset
          [⟨ascii "a", defaultPort, none⟩, ⟨ascii "b", defaultPort, none⟩]) (ascii "key") false ()).1 :=
  (getServer_consistent (fun _ s => (true, s)) () alternating { hashFunction := some List.length }
    [⟨ascii "a", defaultPort, none⟩, ⟨ascii "b", defaultPort, none⟩] distinct_alternating
    (ascii "key")).2.1 _ (.swap _ _ _)

end KetamaSelector

end Libmc
