import Libmc.GoPoolAccounts

/-!
# Waiting for a connection of golibmc

A request that waits is served when a connection is put back or opened, so there has to be one.
Whoever lowers `numOpen` opens other connections, except `conn.quit` after a code that it does not
expect. So requests are served exactly if such a code does not come with the last connection
(`pool_served_iff`).
-/

namespace Libmc.Golibmc

open Processes

variable {g g' x : Goroutine} {c c' : Client} {started : List Goroutine} {cn k i : ℕ} {s s' : Pool}
  {ev : PoolEvent}

namespace Client

/-- If a request waits, a connection is open or will be opened. -/
def Served (c : Client) : Prop := c.closed = false → c.connRequests ≠ [] → 0 < c.numOpen

/-- Opening connections serves a request, if connections were counted right. -/
theorem served_maybeOpen (h : 0 ≤ c.numOpen) : c.maybeOpenNewConnections.Served := by
  unfold maybeOpenNewConnections
  by_cases hclosed : c.closed = true
  · rw [if_pos hclosed]
    intro hopen
    cases hclosed.symm.trans hopen
  · rw [if_neg hclosed]
    intro _ hreq
    have hpos : 0 < c.connRequests.length := List.length_pos_iff.2 hreq
    show 0 < c.numOpen + ((if 0 < c.maxOpen then min (c.connRequests.length : ℤ)
      (c.maxOpen - c.numOpen) else c.connRequests.length).toNat : ℤ)
    split_ifs <;> omega

theorem Served.filter (h : c.Served) (p : ℕ → Bool) :
    Served { c with connRequests := c.connRequests.filter p } := fun hclosed hreq =>
  h hclosed fun hnil => hreq (by
    show c.connRequests.filter p = []
    rw [hnil]
    rfl)

end Client

/-- The last connection is not discarded with a code that `conn.quit` does not expect, while a
request waits. -/
def Pool.Replaced (s : Pool) (ev : PoolEvent) : Prop :=
  ∀ i cn errCode next, ev = .go i → s.procs[i]? = some (.quitting cn errCode next) →
    errCode = .ok ∨ errCode = .connPollErr ∨ s.client.numOpen ≠ 1 ∨ s.client.connRequests = [] ∨
      s.client.closed = true

theorem Local.closed (h : Local g c g' started c') (hc : c.closed = true) : c'.closed = true := by
  cases h with
  | createFailed =>
    obtain ⟨n, hn⟩ := c.lowerNumOpen.maybeOpenNewConnections_eq
    rw [hn]
    exact hc
  | put opener h =>
    cases h with
    | request => exact hc
    | free =>
      obtain ⟨b, heq, -⟩ := Client.startCleanerLocked_eq { c with freeConns := c.freeConns ++ [_] }
      rw [heq]
      exact hc
  | quitClient => rfl
  | quitting cn errCode next =>
    obtain ⟨n, hn⟩ := c.quitConn_eq cn errCode
    rw [hn]
    exact hc
  | _ => exact hc

theorem Next.go_ne_openClosed (next : Next) : next.go ≠ .openClosed := by
  rcases next with _ | _ | _ | (_ | ⟨cn, rest⟩) | (_ | ⟨cn, rest⟩) <;> nofun

theorem Local.openClosed_of (h : Local g c g' started c') (hg' : g' = .openClosed) :
    c.closed = true := by
  cases h with
  | openingClosed h => exact h
  | takenConn => split_ifs at hg'
  | createFailed | put | cleanerSweep | quitRange | quitTwice | quitting =>
    exact absurd hg' (Next.go_ne_openClosed _)
  | _ => cases hg'

/-- A step of a goroutine. Who lowers `numOpen` has been counted. -/
theorem Local.served (h : Local g c g' started c') (hs : c.Served)
    (hclosed : g = .openClosed → c.closed = true)
    (hpos : (∃ opener, g = .createFailed opener) ∨ (∃ cn errCode next, g = .quitting cn errCode next) →
      0 < c.numOpen)
    (hrule : ∀ cn errCode next, g = .quitting cn errCode next → errCode = .ok ∨ errCode = .connPollErr ∨
      c.numOpen ≠ 1 ∨ c.connRequests = [] ∨ c.closed = true) : c'.Served := by
  cases h with
  | connWait b h hfree hmax => exact fun _ _ => hmax.1.trans_le hmax.2
  | connCreate =>
    intro hopen hreq
    have : 0 < c.numOpen := hs hopen hreq
    show 0 < c.numOpen + 1
    omega
  | createFailed opener =>
    have := hpos (.inl ⟨opener, rfl⟩)
    refine Client.served_maybeOpen ?_
    show 0 ≤ c.numOpen - 1
    omega
  | cancelled => exact hs.filter _
  | put opener h =>
    cases h with
    | request => exact hs.filter _
    | free h hnone =>
      obtain ⟨b, heq, -⟩ := Client.startCleanerLocked_eq { c with freeConns := c.freeConns ++ [_] }
      rw [heq]
      exact fun _ hreq => absurd hnone hreq
  | openClosed =>
    intro hopen
    cases (hclosed rfl).symm.trans hopen
  | quitClient => nofun
  | quitting cn errCode next =>
    have hnum := hpos (.inr ⟨cn, errCode, next, rfl⟩)
    unfold Client.quitConn
    dsimp only
    split_ifs with hcode
    · refine Client.served_maybeOpen ?_
      show 0 ≤ c.numOpen - 1
      omega
    · intro hopen hreq
      show 0 < c.numOpen - 1
      rcases hrule cn errCode next rfl with h | h | h | h | h
      · exact absurd (.inl h) hcode
      · exact absurd (.inr h) hcode
      · omega
      · exact absurd h hreq
      · cases h.symm.trans hopen
  | _ => exact hs

namespace Pool

/-- What is open or will be opened has been counted. -/
theorem Inv.numOpen_pos (h : s.Inv) (hg : g ∈ s.procs)
    (hlowers : (∃ opener, g = .createFailed opener) ∨
      ∃ cn errCode next, g = .quitting cn errCode next) :
    0 < s.client.numOpen := by
  rw [h.numOpen_eq]
  rcases hlowers with ⟨opener, rfl⟩ | ⟨cn, errCode, next, rfl⟩
  · obtain ⟨j, hj⟩ := List.mem_iff_getElem?.1 hg
    have hle := le_total Goroutine.creates hj
    have hone : (Goroutine.createFailed opener).creates = 1 := rfl
    unfold announced
    omega
  · obtain ⟨x, hx, -, hlow⟩ := h.conn_of_quitting hg
    have hle := le_total (fun x : Conn => if x.lowered then 0 else 1) hx
    have hone : (if x.lowered then 0 else 1) = 1 := if_neg (by simp [hlow])
    unfold counted
    omega

/-- The invariant of a run in which requests are served. -/
structure ServedInv (s : Pool) : Prop where
  inv : s.Inv
  openClosed : .openClosed ∈ s.procs → s.client.closed = true
  served : s.client.Served

theorem ServedInv.step (h : s.ServedInv) (hstep : Step s ev s') (hrule : s.Replaced ev) :
    s'.ServedInv := by
  refine ⟨h.inv.step hstep, ?_, ?_⟩
  · cases hstep with
    | conn | quit =>
      intro hg
      rcases List.mem_append.1 hg with hg | hg
      · exact h.openClosed hg
      · cases List.mem_singleton.1 hg
    | setConnMaxOpen => exact h.openClosed
    | setConnMaxLifetime d =>
      obtain ⟨b, heq, hnew⟩ := Client.startCleanerLocked_eq { s.client with maxLifetime := max d 0 }
      intro hg
      rw [heq]
      rcases List.mem_append.1 hg with hg | hg
      · exact h.openClosed hg
      · cases hnew _ hg
    | go hi hlocal =>
      intro hg
      rcases mem_move hg with hg | hg | hg
      · exact hlocal.closed (hlocal.openClosed_of hg.symm)
      · exact hlocal.closed (h.openClosed hg)
      · cases hlocal.started_eq _ hg
  · cases hstep with
    | conn => exact h.served
    | quit => exact h.served
    | setConnMaxOpen => exact h.served
    | setConnMaxLifetime d =>
      obtain ⟨b, heq, -⟩ := Client.startCleanerLocked_eq { s.client with maxLifetime := max d 0 }
      rw [heq]
      exact h.served
    | @go i g g' started c hi hlocal =>
      have hmem := List.mem_of_getElem? hi
      refine hlocal.served h.served (fun hg => h.openClosed (hg ▸ hmem)) (h.inv.numOpen_pos hmem) ?_
      rintro cn errCode next rfl
      exact hrule i cn errCode next rfl hi

/-- **Requests are served.** In every run no state leaves a request without a connection that is open
or will be opened, exactly if the last connection is never discarded with a code other than `RET_OK`
and `RET_CONN_POLL_ERR` of `client_quit` while a request waits and the client is not closed. -/
theorem pool_served_iff {tr : List (Transition Pool PoolEvent)} (h : Run Step {} tr s) :
    (∀ x ∈ tr, x.after.client.Served) ↔ ∀ x ∈ tr, x.before.Replaced x.event := by
  have hinit : ServedInv {} := by
    refine ⟨inv_init, fun hg => ?_, fun _ hreq => absurd rfl hreq⟩
    cases List.mem_singleton.1 hg
  refine h.forall_iff (I := ServedInv) (P := fun x => x.after.client.Served) hinit ?_ ?_
  · intro s ev s' hs hstep hrule
    have hinv := hs.step hstep hrule
    exact ⟨hinv, hinv.served⟩
  · intro s ev s' _ hstep hrule hserved
    unfold Replaced at hrule
    push Not at hrule
    obtain ⟨i, cn, errCode, next, rfl, hi, hok, hpoll, hone, hreq, hopen⟩ := hrule
    cases hstep with
    | go hi' hlocal =>
      obtain rfl := Option.some.inj (hi'.symm.trans hi)
      cases hlocal with
      | quitting =>
        have hcode : ¬ (errCode = .ok ∨ errCode = .connPollErr) := not_or.2 ⟨hok, hpoll⟩
        have heq : s.client.quitConn cn errCode = Client.lowerNumOpen
            { s.client with
              conns := s.client.conns.modify cn fun x => { x with lowered := true } } := by
          unfold Client.quitConn
          exact if_neg hcode
        change (s.client.quitConn cn errCode).Served at hserved
        rw [heq] at hserved
        have hclosed : s.client.closed = false := by simpa using hopen
        have hpos : 0 < s.client.numOpen - 1 := hserved hclosed hreq
        omega

/-- The first request waits for a connection that is being opened. -/
theorem pool_served_first : ∃ s : Pool, s.client.connRequests = [0] ∧ s.client.Served := by
  have hcall : Run Step ({} : Pool) _ _ := .snoc .nil (.conn {})
  have hopens := hcall.snoc (.go (i := 1) rfl (.connCreate true rfl (fun _ => rfl) (by decide)))
  have hsecond := hopens.snoc (.conn _)
  have hrun := hsecond.snoc (.go (i := 2) rfl (.connWait true rfl (fun _ => rfl) (by decide)))
  refine ⟨_, ?_, (pool_served_iff hrun).2 (fun x hx i cn errCode next hev hi => ?_) _
    (List.mem_append_right _ (List.mem_singleton_self _))⟩
  · rfl
  · simp only [List.nil_append, List.cons_append, List.mem_cons, List.not_mem_nil, or_false] at hx
    rcases hx with rfl | rfl | rfl | rfl
    · cases hev
    · cases hev
      cases hi
    · cases hev
    · cases hev
      cases hi

/-- The only connection fails while a second caller waits. No server is alive when it is discarded,
so `client_quit` gives `RET_MC_SERVER_ERR`, and the caller waits for ever. -/
theorem pool_not_served : ¬ ∀ (tr : List (Transition Pool PoolEvent)) (s : Pool), Run Step {} tr s →
    ∀ x ∈ tr, x.after.client.Served := by
  intro h
  have hcall : Run Step ({} : Pool) _ _ := .snoc .nil (.conn {})
  have hopens := hcall.snoc (.go (i := 1) rfl (.connCreate true rfl (fun _ => rfl) (by decide)))
  have hcreated := hopens.snoc (.go (i := 1) rfl (.created 0))
  have hsecond := hcreated.snoc (.conn _)
  have hwaits := hsecond.snoc (.go (i := 2) rfl (.connWait true rfl (fun _ => rfl) (by decide)))
  have hfails := hwaits.snoc (.go (i := 1) rfl (.use 0 true))
  have hbad := hfails.snoc (.go (i := 1) rfl (.putBad 0 false))
  have hquit := hbad.snoc (.go (i := 1) rfl (.quit .done .mcServerErr rfl rfl))
  have hrun := hquit.snoc (.go (i := 1) rfl (.quitting 0 .mcServerErr .done))
  have hserved := h _ _ hrun _ (List.mem_append_right _ (List.mem_singleton_self _))
  have hpos : (0 : ℤ) < 1 - 1 := hserved rfl (List.cons_ne_nil 0 [])
  omega

end Pool

end Libmc.Golibmc
