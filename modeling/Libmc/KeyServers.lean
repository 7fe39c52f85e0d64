import Libmc.PollCodes
import Libmc.Support.Shards

/-!
# Servers that keep something for every key

A command with a key reads and changes what a server keeps for this key only (`KeyService`). A server
that executes the commands in their order is a state machine over what it keeps for all keys
(`KeyService.after`), and its replies are no error lines (`Serves.not_fails`). The keys of a request
are divided among the servers (`Request.RoutedBy`), and with them its commands.
-/

namespace Libmc

variable {cmd : Command} {cmds : List Command} {i n socket : ℕ} {srv : Servers} {req : Request}
  {p : ConnectionPool} {route : Bytes → ℕ} {V : Type} {m : Bytes → V} {bs : Bytes}
  {x : Bytes × Routed} {rules : Rules}

/-! ### A server -/

namespace Command

/-- The key of a command that has one. -/
def key : Command → Bytes
  | storage _ key _ _ _ _ _ => key
  | incrDecr _ key _ _ => key
  | touch key _ _ => key
  | delete key _ => key
  | _ => []

def hasKey : Command → Bool
  | retrieval _ _ => false
  | bare _ => false
  | _ => true

end Command

/-- What a server answers to a command with one key. -/
inductive Answer
  | line (l : ReplyLine)
  | number (n : ℕ)
  deriving DecidableEq, Repr

namespace Answer

def bytes : Answer → Bytes
  | line l => l.bytes
  | number n => Decimal.numeral n ++ crlf

def message (key : Bytes) : Answer → Option MessageResult
  | line l => some (l.result key)
  | number _ => none

def unsigned (key : Bytes) : Answer → Option UnsignedResult
  | line _ => none
  | number n => some ⟨some key, n % 2 ^ 64⟩

/-- The answers to a command, but for error lines. -/
inductive For : Command → Answer → Prop
  | line {cmd : Command} {l : ReplyLine} (h : l ∈ cmd.messages) : For cmd (.line l)
  | number {op : OpCode} {key : Bytes} {delta : ℤ} {noreply : Bool} (n : ℕ) :
      For (.incrDecr op key delta noreply) (.number n)

end Answer

/-- How a server serves a key, for which it keeps a `V`: what a command makes of it and the answer,
and the item that a retrieval finds. -/
structure KeyService (V : Type) where
  exec : Command → V → V × Answer
  item : OpCode → Bytes → V → Option Item
  answers : ∀ cmd v, cmd.hasKey = true → Answer.For cmd (exec cmd v).2
  valid : ∀ op key v it, item op key v = some it → it.Valid

namespace KeyService

variable {K : KeyService V}

def after (K : KeyService V) (m : Bytes → V) (cmd : Command) : Bytes → V :=
  if cmd.hasKey then Shards.serve Command.key K.exec m cmd else m

def reply (K : KeyService V) (m : Bytes → V) : Command → Bytes
  | .retrieval op keys => Libmc.reply (keys.filterMap fun key => K.item op key (m key))
  | .bare _ => []
  | cmd => (K.exec cmd (m cmd.key)).2.bytes

/-- A server that executes commands, which are the `n`-th on a socket and those after it. -/
def Serves (K : KeyService V) (srv : Servers) (i socket : ℕ) :
    ℕ → List Command → (Bytes → V) → Prop
  | _, [], _ => True
  | n, cmd :: cmds, m => (cmd.expectsReply = true → srv.reply i socket n cmd = K.reply m cmd) ∧
      Serves K srv i socket (n + 1) cmds (K.after m cmd)

theorem reply_of_hasKey (h : cmd.hasKey = true) :
    K.reply m cmd = (K.exec cmd (m cmd.key)).2.bytes := by
  cases cmd with
  | retrieval => cases h
  | bare => cases h
  | _ => rfl

theorem after_of_hasKey (h : cmd.hasKey = true) :
    K.after m cmd = Shards.serve Command.key K.exec m cmd := if_pos h

theorem foldl_after (h : ∀ cmd ∈ cmds, cmd.hasKey = true) :
    cmds.foldl K.after m = cmds.foldl (Shards.serve Command.key K.exec) m := by
  induction cmds generalizing m with
  | nil => rfl
  | cons cmd cmds ih =>
    obtain ⟨hcmd, hcmds⟩ := List.forall_mem_cons.1 h
    rw [List.foldl_cons, List.foldl_cons, after_of_hasKey hcmd]
    exact ih hcmds

def messages (K : KeyService V) (m : Bytes → V) (cmds : List Command) : List MessageResult :=
  (Shards.answers Command.key K.exec m cmds).filterMap fun x => x.2.message x.1.key

end KeyService

/-! ### There are no error lines -/

theorem ErrorLine.take_two (h : ErrorLine bs) :
    bs.take 2 = [69, 82] ∨ bs.take 2 = [67, 76] ∨ bs.take 2 = [83, 69] := by
  obtain ⟨l, -, hnone, rfl⟩ := h
  cases l with
  | error => exact .inl rfl
  | clientError => exact .inr (.inl rfl)
  | serverError => exact .inr (.inr rfl)
  | _ => cases hnone

theorem not_errorLine_number (n : ℕ) : ¬ ErrorLine (Decimal.numeral n ++ crlf) := by
  intro h
  obtain ⟨c, ds, hcds⟩ := List.exists_cons_of_ne_nil (Decimal.numeral_ne_nil n)
  have hc := Decimal.bounds_of_mem_numeral (n := n) (by rw [hcds]; exact List.mem_cons_self)
  have htake := h.take_two
  rw [hcds, List.cons_append, List.take_succ_cons] at htake
  rcases htake with htake | htake | htake
  · rw [(List.cons_eq_cons.1 htake).1] at hc
    exact absurd hc.2 (by decide)
  · rw [(List.cons_eq_cons.1 htake).1] at hc
    exact absurd hc.2 (by decide)
  · rw [(List.cons_eq_cons.1 htake).1] at hc
    exact absurd hc.2 (by decide)

theorem not_errorLine_reply (items : List Item) : ¬ ErrorLine (Libmc.reply items) := by
  intro h
  have htake := h.take_two
  cases items with
  | nil => exact absurd htake (by decide)
  | cons it items =>
    rw [PacketParser.reply_cons] at htake
    have hvalue : (it.bytes ++ Libmc.reply items).take 2 = [86, 65] := rfl
    rw [hvalue] at htake
    exact absurd htake (by decide)

theorem Answer.For.isReply {a : Answer} (h : a.For cmd) : IsReply cmd a.bytes := by
  cases h with
  | line hl => exact .message hl
  | number n => exact .number n

theorem Answer.For.not_errorLine {a : Answer} (h : a.For cmd) : ¬ ErrorLine a.bytes := by
  cases h with
  | @line _ l hl =>
    show ¬ ErrorLine l.bytes
    rw [PacketParser.errorLine_iff (ReplyLine.single_of_messages hl)]
    cases cmd with
    | storage => fin_cases hl <;> nofun
    | incrDecr => fin_cases hl; nofun
    | touch => fin_cases hl <;> nofun
    | delete => fin_cases hl <;> nofun
    | _ => cases hl
  | number n => exact not_errorLine_number n

namespace KeyService

variable {K : KeyService V}

theorem not_errorLine : ¬ ErrorLine (K.reply m cmd) := by
  by_cases hkey : cmd.hasKey = true
  · rw [reply_of_hasKey hkey]
    exact (K.answers cmd _ hkey).not_errorLine
  · cases cmd with
    | retrieval => exact not_errorLine_reply _
    | bare =>
      rintro ⟨l, -, -, hnil⟩
      exact l.bytes_ne_nil hnil.symm
    | _ => exact absurd rfl hkey

/-- **A server that serves commands** answers none by an error line. -/
theorem Serves.not_fails (h : K.Serves srv i socket n cmds m) : ¬ srv.Fails i socket n cmds := by
  induction cmds generalizing n m with
  | nil => exact id
  | cons cmd cmds ih =>
    rintro (⟨hreply, herr⟩ | hrest)
    · rw [h.1 hreply] at herr
      exact not_errorLine herr
    · exact ih h.2 hrest

theorem Serves.lines (h : K.Serves srv i socket n cmds m)
    (hreply : ∀ cmd ∈ cmds, cmd.expectsReply = true) (hline : ∀ cmd ∈ cmds, cmd.isLine = true) :
    ∃ ls, srv.Lines i socket n cmds ls ∧
      List.zipWith ReplyLine.result ls (cmds.map Command.key) = K.messages m cmds := by
  induction cmds generalizing n m with
  | nil => exact ⟨[], .nil, rfl⟩
  | cons cmd cmds ih =>
    obtain ⟨hcmd, hcmds⟩ := List.forall_mem_cons.1 hreply
    obtain ⟨hisLine, hareLines⟩ := List.forall_mem_cons.1 hline
    obtain ⟨ls, hls, hmessages⟩ := ih h.2 hcmds hareLines
    have hkey : cmd.hasKey = true := by
      cases cmd with
      | retrieval => cases hisLine
      | bare => cases hisLine
      | _ => rfl
    obtain ⟨l, hl, hexec⟩ : ∃ l : ReplyLine, l.Single ∧ (K.exec cmd (m cmd.key)).2 = .line l := by
      have hfor := K.answers cmd (m cmd.key) hkey
      generalize (K.exec cmd (m cmd.key)).2 = answer at hfor
      cases hfor with
      | line hl => exact ⟨_, ReplyLine.single_of_messages hl, rfl⟩
      | number => cases hisLine
    refine ⟨l :: ls, .cons hl ?_ hls, ?_⟩
    · rw [h.1 hcmd, reply_of_hasKey hkey, hexec]
      rfl
    · unfold messages at hmessages ⊢
      rw [Shards.answers_cons, List.filterMap_cons, hexec, List.map_cons, List.zipWith_cons_cons,
        hmessages, after_of_hasKey hkey]
      rfl

def servers (K : KeyService V) (m : ℕ → Bytes → V) : Servers where
  reply i _ _ cmd :=
    match cmd with
    | .bare _ => ReplyLine.error.bytes
    | cmd => K.reply (m i) cmd
  isReply i _ _ cmd _ := by
    cases cmd with
    | bare => exact .failed (l := .error) trivial rfl
    | retrieval =>
      refine .items fun it hit => ?_
      obtain ⟨key, -, hkey⟩ := List.mem_filterMap.1 hit
      exact K.valid _ _ _ _ hkey
    | storage => exact (K.answers _ _ rfl).isReply
    | incrDecr => exact (K.answers _ _ rfl).isReply
    | touch => exact (K.answers _ _ rfl).isReply
    | delete => exact (K.answers _ _ rfl).isReply

end KeyService

/-! ### Where the keys go -/

namespace Request

/-- The keys of a request, with their routing. -/
def routedKeys : Request → List (Bytes × Routed)
  | storage _ _ _ items => items.map fun item => (item.1.key, item.2)
  | retrieval _ keys => keys
  | deletion _ keys => keys
  | touch _ _ keys => keys
  | incrDecr _ _ _ key => [key]
  | broadcast _ _ => []

def commands : Request → List Command
  | storage op exptime noreply items =>
    ((items.map (·.1)).filter fun item => isValidKey item.key).map
      (storageCommand op exptime noreply)
  | retrieval op keys => [.retrieval op ((keys.map (·.1)).filter isValidKey)]
  | deletion noreply keys => ((keys.map (·.1)).filter isValidKey).map (.delete · noreply)
  | touch exptime noreply keys =>
    ((keys.map (·.1)).filter isValidKey).map (.touch · exptime.toInt noreply)
  | incrDecr op delta noreply key =>
    (([key].map (·.1)).filter isValidKey).map (.incrDecr op · delta.toInt64.toInt noreply)
  | broadcast _ _ => []

/-- A request for keys, each of which has the connection that `route` says. -/
structure RoutedBy (route : Bytes → ℕ) (req : Request) : Prop where
  keys : ∀ op answers, req ≠ .broadcast op answers
  conn : ∀ x ∈ req.routedKeys, isValidKey x.1 = true → x.2.conn = some (route x.1)

theorem itemsFor_routed (route : Bytes → ℕ) {ι : Type} {key : ι → Bytes} {items : List (ι × Routed)}
    (h : ∀ item ∈ items, isValidKey (key item.1) = true → item.2.conn = some (route (key item.1))) :
    itemsFor key i items =
      ((items.map (·.1)).filter fun x => isValidKey (key x)).filter fun x => route (key x) = i := by
  unfold itemsFor
  rw [List.filter_filter, List.filter_map]
  refine congrArg _ (List.filter_congr fun item hitem => ?_)
  show (isValidKey (key item.1) && decide (item.2.conn = some i)) =
    (decide (route (key item.1) = i) && isValidKey (key item.1))
  rcases hvalid : isValidKey (key item.1) with _ | _
  · rw [Bool.false_and, Bool.and_false]
  · rw [h item hitem hvalid, Bool.true_and, Bool.and_true]
    exact decide_eq_decide.2 (Option.some_inj)

theorem map_filter_key {ι : Type} {key : ι → Bytes} {f : ι → Command}
    (hf : ∀ x, (f x).key = key x) (l : List ι) (i : ℕ) :
    (l.filter fun x => route (key x) = i).map f = (l.map f).filter fun cmd => route cmd.key = i := by
  rw [List.filter_map]
  refine congrArg _ (List.filter_congr fun x _ => ?_)
  show decide (route (key x) = i) = decide (route (f x).key = i)
  rw [hf]

/-- Whether the commands of a request have one key each. -/
def Single (req : Request) : Prop := ∀ cmd ∈ req.commands, cmd.hasKey = true

/-- A request is a retrieval, or its commands have one key each. -/
theorem single_or (req : Request) : (∃ op keys, req = .retrieval op keys) ∨ req.Single := by
  have hmap : ∀ {ι : Type} (f : ι → Command) (l : List ι), (∀ x, (f x).hasKey = true) →
      ∀ cmd ∈ l.map f, cmd.hasKey = true := fun f l hf => List.forall_mem_map.2 fun x _ => hf x
  cases req with
  | retrieval op keys => exact .inl ⟨op, keys, rfl⟩
  | storage => exact .inr (hmap _ _ fun _ => rfl)
  | deletion => exact .inr (hmap _ _ fun _ => rfl)
  | touch => exact .inr (hmap _ _ fun _ => rfl)
  | incrDecr => exact .inr (hmap _ _ fun _ => rfl)
  | broadcast => exact .inr (List.forall_mem_nil _)

/-- **The commands of a connection** are those of its keys. -/
theorem RoutedBy.commandsFor (h : req.RoutedBy route) (hsingle : req.Single) (p : ConnectionPool)
    (i : ℕ) : req.commandsFor p i = req.commands.filter fun cmd => route cmd.key = i := by
  cases req with
  | retrieval op keys => cases hsingle _ (List.mem_singleton_self _)
  | broadcast op answers => exact absurd rfl (h.keys op answers)
  | storage op exptime noreply items =>
    show (itemsFor (·.key) i items).map _ = _
    rw [itemsFor_routed route fun item hitem =>
      h.conn (item.1.key, item.2) (List.mem_map_of_mem hitem)]
    exact map_filter_key (fun _ => rfl) _ i
  | deletion noreply keys =>
    show (itemsFor id i keys).map _ = _
    rw [itemsFor_routed route h.conn]
    exact map_filter_key (fun _ => rfl) _ i
  | touch exptime noreply keys =>
    show (itemsFor id i keys).map _ = _
    rw [itemsFor_routed route h.conn]
    exact map_filter_key (fun _ => rfl) _ i
  | incrDecr op delta noreply key =>
    show (itemsFor id i [key]).map _ = _
    rw [itemsFor_routed route h.conn]
    exact map_filter_key (fun _ => rfl) _ i

/-- The keys that wait for messages are those of the commands. -/
theorem HasMessages.keysFor_eq (h : req.HasMessages) (p : ConnectionPool) (i : ℕ) :
    req.keysFor i = (req.commandsFor p i).map Command.key := by
  cases req with
  | storage op exptime noreply items =>
    obtain rfl : noreply = false := h
    show (itemsFor (·.key) i items).map _ = ((itemsFor (·.key) i items).map _).map _
    rw [List.map_map]
    rfl
  | deletion noreply keys =>
    obtain rfl : noreply = false := h
    show itemsFor id i keys = ((itemsFor id i keys).map _).map _
    rw [List.map_map]
    exact (List.map_id _).symm
  | touch exptime noreply keys =>
    obtain rfl : noreply = false := h
    show itemsFor id i keys = ((itemsFor id i keys).map _).map _
    rw [List.map_map]
    exact (List.map_id _).symm
  | _ => cases h

theorem RoutesLive.lt (hroutes : req.RoutesLive p) (hx : x ∈ req.routedKeys)
    (hvalid : isValidKey x.1 = true) (hi : x.2.conn = some i) : i < p.conns.length := by
  cases req with
  | storage op exptime noreply items =>
    obtain ⟨item, hitem, rfl⟩ := List.mem_map.1 hx
    exact ConnectionPool.RoutesLive.lt hroutes hitem hvalid hi
  | retrieval op keys => exact ConnectionPool.RoutesLive.lt hroutes hx hvalid hi
  | deletion noreply keys => exact ConnectionPool.RoutesLive.lt hroutes hx hvalid hi
  | touch exptime noreply keys => exact ConnectionPool.RoutesLive.lt hroutes hx hvalid hi
  | incrDecr op delta noreply key =>
    obtain rfl := List.mem_singleton.1 hx
    exact (hroutes hvalid).lt hi
  | broadcast => cases hx

theorem commandsFor_ne_nil (hx : x ∈ req.routedKeys) (hvalid : isValidKey x.1 = true)
    (hi : x.2.conn = some i) : req.commandsFor p i ≠ [] := by
  have hitems : ∀ keys : List (Bytes × Routed), x ∈ keys → itemsFor id i keys ≠ [] :=
    fun _ hx => List.ne_nil_of_mem (mem_itemsFor hx hvalid hi)
  cases req with
  | storage op exptime noreply items =>
    obtain ⟨item, hitem, rfl⟩ := List.mem_map.1 hx
    exact mt List.map_eq_nil_iff.1 (List.ne_nil_of_mem (mem_itemsFor hitem hvalid hi))
  | retrieval op keys =>
    rw [commandsFor_retrieval, if_neg (hitems keys hx)]
    exact List.cons_ne_nil _ _
  | deletion noreply keys => exact mt List.map_eq_nil_iff.1 (hitems keys hx)
  | touch exptime noreply keys => exact mt List.map_eq_nil_iff.1 (hitems keys hx)
  | incrDecr op delta noreply key => exact mt List.map_eq_nil_iff.1 (hitems [key] hx)
  | broadcast => cases hx

theorem active_of_key (hp : Reachable rules p) (hroutes : req.RoutesLive p) (hx : x ∈ req.routedKeys)
    (hvalid : isValidKey x.1 = true) (hi : x.2.conn = some i) :
    i ∈ (req.dispatch p).activeConns := by
  have hlt : i < p.conns.length := hroutes.lt hx hvalid hi
  obtain ⟨-, -, -, -, hactive⟩ := req.dispatched hp
    (List.getElem?_eq_getElem (req.dispatch_length p ▸ hlt))
  exact hactive.2 (commandsFor_ne_nil hx hvalid hi)

theorem exists_key (hsingle : req.Single) (hcmd : cmd ∈ req.commands) :
    ∃ x ∈ req.routedKeys, x.1 = cmd.key ∧ isValidKey x.1 = true := by
  have hmap : ∀ {ι : Type} (key : ι → Bytes) {items : List (ι × Routed)} (f : ι → Command),
      (∀ x, (f x).key = key x) →
      cmd ∈ ((items.map (·.1)).filter fun x => isValidKey (key x)).map f →
        ∃ item ∈ items, key item.1 = cmd.key ∧ isValidKey (key item.1) = true := by
    intro ι key items f hf hmem
    obtain ⟨y, hy, rfl⟩ := List.mem_map.1 hmem
    obtain ⟨hmem, hvalid⟩ := List.mem_filter.1 hy
    obtain ⟨item, hitem, rfl⟩ := List.mem_map.1 hmem
    exact ⟨item, hitem, (hf _).symm, hvalid⟩
  cases req with
  | retrieval => cases hsingle _ (List.mem_singleton_self _)
  | broadcast => cases hcmd
  | storage op exptime noreply items =>
    obtain ⟨item, hitem, hkey, hvalid⟩ :=
      hmap (fun item : StorageItem => item.key) _ (fun _ => rfl) hcmd
    exact ⟨_, List.mem_map_of_mem hitem, hkey, hvalid⟩
  | deletion noreply keys => exact hmap id _ (fun _ => rfl) hcmd
  | touch exptime noreply keys => exact hmap id _ (fun _ => rfl) hcmd
  | incrDecr op delta noreply key => exact hmap id _ (fun _ => rfl) hcmd

end Request

end Libmc
