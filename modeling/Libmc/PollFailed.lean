import Libmc.PollSent

/-!
# When `poll` fails

`markDeadAll` closes the active connections whose events are not cleared. The events of a live
connection say what is left to do: `POLLOUT` stands for as long as buffers are left, and `POLLIN` is
cleared by the parser only when it is done, or before anything is sent (`Masked`). So a connection
that is alive after `poll` has failed has finished (`waitPoll_failed`).
-/

namespace Libmc

variable {c c' d : Connection} {p : ConnectionPool} {s s' : PollLoop} {ev : Event} {r : Revents}
  {a : Answers} {e e' : Entry} {part : Part} {jump : Bool} {i k : ℕ} {fd : PollFd} {rules : Rules}

/-- The events of a connection that is alive. -/
structure Masked (c : Connection) (fd : PollFd) : Prop where
  out_iff : c.alive = true → (fd.out = true ↔ c.bufferWriter.msgIovlen ≠ 0)
  processed : c.alive = true → fd.in_ = false → c.bufferWriter.msgIovlen = 0 →
    c.traffic.processed = some .ok

structure Signalled (part : Part) (r : Revents) (c : Connection) (fd : PollFd) : Prop where
  alive : r.Some → c.alive = true
  out : part ≠ .recv → r.out = true → fd.out = true
  in_ : r.in_ = true → fd.in_ = true ∨ c.bufferWriter.msgIovlen ≠ 0

namespace Entry

theorem msgIovlen_of_not_sent (h : e.conn.bufferWriter.Wf) (hsent : e.conn.isSent = false) :
    e.conn.bufferWriter.msgIovlen ≠ 0 := by
  refine h.msgIovlen_pos ?_
  unfold Connection.isSent BufferWriter.isRead at hsent
  simpa using hsent

theorem Effect.masked (h : Effect r a e part jump e') (he : Tracked e.conn e.pollfd)
    (hm : Masked e.conn e.pollfd) (hr : Signalled part r e.conn e.pollfd)
    (hfd : ∀ err, part = .recv → e.Gives r a err → err = .programmingErr ∨ err = .mcServerErr →
      e.conn.socketFd ≠ 0) : Masked e'.conn e'.pollfd := by
  cases h with
  | idle => exact hm
  | @rewound _ d _ _ _ hd h =>
    have hwf : d.bufferWriter.Wf := by
      rw [hd.bufferWriter_eq]
      exact he.wf
    have hleft : e'.conn.bufferWriter.msgIovlen ≠ 0 := by
      rw [h.bufferWriter_eq]
      exact hwf.rewind.2.2.2
    refine ⟨fun _ => ?_, fun _ _ h0 => absurd h0 hleft⟩
    rw [h.pollfd_eq]
    exact iff_of_true rfl hleft
  | resumed hloses hd h =>
    have hleft : e'.conn.bufferWriter.msgIovlen ≠ 0 := by
      rw [h.work.bufferWriter_eq, hd.bufferWriter_eq]
      exact msgIovlen_of_not_sent he.wf hloses.2.1
    refine ⟨fun _ => ?_, fun _ _ h0 => absurd h0 hleft⟩
    rw [h.pollfd_eq]
    exact iff_of_true rfl hleft
  | givenUp _ _ h =>
    have hdead : ¬ e'.conn.alive = true := by simp [h.closed.alive_eq]
    exact ⟨fun halive => absurd halive hdead, fun halive => absurd halive hdead⟩
  | peeked _ _ hsent hd =>
    have hleft := msgIovlen_of_not_sent he.wf hsent
    rw [← hd.bufferWriter_eq] at hleft
    refine ⟨fun halive => ?_, fun _ _ h0 => absurd h0 hleft⟩
    rw [hd.bufferWriter_eq]
    exact hm.out_iff (hd.socket.alive_eq.symm.trans halive)
  | @sent n _ hout =>
    refine ⟨fun _ => ?_, fun _ hin => by cases hin⟩
    show (e.pollfd.out && decide (_ ≠ 0)) = true ↔ (e.conn.bufferWriter.commitRead n).msgIovlen ≠ 0
    rw [hr.out (by decide) hout]
    simp
  | @received bs d d' err _ hgives _ hd hp =>
    have hd' := hd.processed hp
    have hwriter := hd'.bufferWriter_eq
    have halive' := hd'.alive_eq
    have hparsed := parsed_cases err a { e with conn := d' }
    generalize parsed err a { e with conn := d' } = e'' at hparsed ⊢
    cases hparsed with
    | done herr =>
      refine ⟨fun halive => ?_, fun _ _ _ => ?_⟩
      · show e.pollfd.out = true ↔ d'.bufferWriter.msgIovlen ≠ 0
        rw [hwriter]
        exact hm.out_iff (halive'.symm.trans halive)
      · show d'.traffic.processed = some .ok
        rw [hd'.traffic_eq, herr]
    | failed herr =>
      have hne : d'.socketFd ≠ 0 := hd'.socketFd_eq ▸ hfd err rfl hgives herr
      have hdead := Connection.alive_markDead (hd'.liveFd he.live) hne a.deadTime
      refine ⟨fun halive => ?_, fun halive => ?_⟩
      · cases hdead.symm.trans halive
      · cases hdead.symm.trans halive
    | more hok =>
      refine ⟨fun halive => ?_, fun halive hin' h0 => ?_⟩
      · show e.pollfd.out = true ↔ d'.bufferWriter.msgIovlen ≠ 0
        rw [hwriter]
        exact hm.out_iff (halive'.symm.trans halive)
      · rcases hr.in_ hgives.1 with hin | hleft
        · cases hin'.symm.trans hin
        · change d'.bufferWriter.msgIovlen = 0 at h0
          rw [hwriter] at h0
          exact absurd h0 hleft

theorem Effect.signalled (h : Effect r a e part false e') (he : Tracked e.conn e.pollfd)
    (hr : Signalled part r e.conn e.pollfd) {part' : Part} (hnext : part.next = some part') :
    Signalled part' r e'.conn e'.pollfd := by
  refine ⟨fun hsome => h.alive_eq.trans (hr.alive hsome), ?_, ?_⟩
  · cases h with
    | idle => exact fun _ => hr.out fun hpart => by cases hpart.symm ▸ hnext
    | peeked => exact fun _ => hr.out (by decide)
    | sent =>
      cases hnext
      exact fun hpart => absurd rfl hpart
  · cases h with
    | idle => exact hr.in_
    | peeked _ _ hsent hd =>
      refine fun _ => .inr ?_
      rw [hd.bufferWriter_eq]
      exact msgIovlen_of_not_sent he.wf hsent
    | sent => exact fun _ => .inl rfl

end Entry

/-! ### The end of the loop -/

/-- The descriptors of live connections are positive. -/
def PollLoop.Descriptors (s : PollLoop) (_ : Event) (_ : PollLoop) : Prop :=
  ∀ c ∈ s.pool.conns, c.alive = true → 0 < c.socketFd

def maskedSlot : SlotInvariant where
  holds _ c fd := Tracked c fd ∧ Masked c fd
  reported := Signalled

theorem local_maskedSlot :
    maskedSlot.Local fun _ _ _ e => e.conn.alive = true → 0 < e.conn.socketFd where
  report _ _ _ _ h hr := ⟨h.1.alive hr, fun _ => hr.1, fun hin => .inl (hr.2.1 hin)⟩
  part k part r a e jump e' := by
    rintro ⟨htracked, hmasked⟩ hr hfd hrun
    have heffect := Entry.run_cases htracked.live hrun
    have hne : ∀ err, part = .recv → e.Gives r a err →
        err = .programmingErr ∨ err = .mcServerErr → e.conn.socketFd ≠ 0 := fun err _ hgives _ =>
      (hfd (hr.alive (.inr (.inr hgives.1)))).ne'
    refine ⟨⟨heffect.tracked htracked, heffect.masked htracked hmasked hr hne⟩, ?_⟩
    rintro rfl part' hnext
    exact heffect.signalled htracked hr hnext

theorem inv_maskedSlot (hp : Reachable rules p) (req : Request)
    (h : PollLoop.Steps PollLoop.Descriptors (req.dispatch p).startPoll s)
    (hs : s.progress ≠ .broken) : maskedSlot.Inv s := by
  refine SlotInvariant.Inv.steps (T := maskedSlot) ?_ local_maskedSlot ?_ h hs
  · refine SlotInvariant.inv_startPoll (req.dispatch_active hp.clean).1 fun k i c hi hc => ?_
    obtain ⟨fd, hslot⟩ := (PollLoop.aligned_startPoll (req.dispatch p)).slot hi hc
    obtain ⟨rfl, htracked, hleft, -⟩ := req.slot_dispatch hp hslot
    exact ⟨htracked, fun _ => iff_of_true rfl hleft, fun _ hin => by cases hin⟩
  · intro s ev s' hrule k part revents r a e _ _ _ he
    exact hrule _ (PollLoop.mem_of_entry he)

theorem filter_zipIdx {l : List ℕ} (h : l.Nodup) (hk : l[k]? = some i) (n : ℕ) :
    (l.zipIdx n).filter (fun x => x.1 = i) = [(i, n + k)] := by
  induction l generalizing k n with
  | nil => cases hk
  | cons j l ih =>
    obtain ⟨hj, hl⟩ := List.nodup_cons.1 h
    rw [List.zipIdx_cons]
    cases k with
    | zero =>
      obtain rfl : j = i := by simpa using hk
      rw [List.filter_cons_of_pos (by simp), List.cons.injEq]
      refine ⟨rfl, List.filter_eq_nil_iff.2 fun x hx hxj => hj ?_⟩
      rw [← of_decide_eq_true hxj]
      exact List.fst_mem_of_mem_zipIdx hx
    | succ k =>
      have hk' : l[k]? = some i := by simpa using hk
      have hne : j ≠ i := fun hji => hj (hji ▸ List.mem_of_getElem? hk')
      rw [List.filter_cons_of_neg (by simpa using hne), ih hl hk']
      congr 2
      omega

theorem ConnectionPool.markDeadAll_conns (hnodup : p.activeConns.Nodup)
    (hk : p.activeConns[k]? = some i) (pollfds : Option (List PollFd)) (times : ℕ → ℤ) :
    (p.markDeadAll pollfds times).conns[i]? = p.conns[i]?.map fun c =>
      if pollfds.all fun fds => fds[k]?.any fun fd => fd.out || fd.in_ then c.markDead (times k)
      else c := by
  unfold markDeadAll
  rw [foldl_modifyConn_conns, filter_zipIdx hnodup hk, Nat.zero_add]
  rfl

theorem PollLoop.markDeadAll_slot (hnodup : s.pool.activeConns.Nodup)
    (hi : s.connAt k = some i) (hslot : s.slot k = some (c, fd)) (times : ℕ → ℤ) :
    (s.pool.markDeadAll (some s.pollfds) times).conns[i]? =
      some (if fd.out || fd.in_ then c.markDead (times k) else c) := by
  obtain ⟨j, hj, hc, hfd⟩ := slot_eq_some hslot
  obtain rfl := Option.some.inj (hi.symm.trans hj)
  rw [ConnectionPool.markDeadAll_conns hnodup hi, hc, Option.map_some, Option.all_some, hfd,
    Option.any_some]

/-- **After a failure of `poll`** an active connection is closed, unless its request was sent and the
last call of `process` on its socket has returned `RET_OK`. -/
theorem waitPoll_failed (hp : Reachable rules p) (req : Request)
    (h : PollLoop.Steps PollLoop.Descriptors (req.dispatch p).startPoll s)
    (hs : s.progress = .broken) (hi : i ∈ s.pool.activeConns) (hc : s.pool.conns[i]? = some c) :
    c.alive = true ∧ c.bufferWriter.unread = [] ∧ c.traffic.processed = some .ok ∨
      c.alive = false ∧ c.socketFd < 0 := by
  obtain ⟨t, code, times, hsteps, ht, hrule, rfl⟩ := SlotInvariant.steps_broken h nofun hs
  have hinv := inv_maskedSlot hp req hsteps ht
  obtain ⟨k, hk⟩ := List.mem_iff_getElem?.1 hi
  have hframe := ConnectionPool.frame_markDeadAll (some t.pollfds) times t.pool
  have hk' : t.pool.activeConns[k]? = some i := by
    rw [← hframe.activeConns]
    exact hk
  have haligned := (PollLoop.aligned_startPoll (req.dispatch p)).steps hsteps
  have hk0 : (req.dispatch p).startPoll.connAt k = some i := by
    show (req.dispatch p).startPoll.pool.activeConns[k]? = some i
    rw [← haligned.frame.activeConns]
    exact hk'
  have hlt : i < t.pool.conns.length := by
    rw [← hframe.length]
    exact (List.getElem?_eq_some_iff.1 hc).1
  have hd := List.getElem?_eq_getElem hlt
  generalize t.pool.conns[i] = d at hd
  obtain ⟨fd, hslot⟩ := haligned.slot hk0 hd
  obtain ⟨htracked, hmasked⟩ := hinv.slots k d fd hslot
  have hmarked := PollLoop.markDeadAll_slot hinv.nodup hk' hslot times
  obtain rfl := Option.some.inj (hmarked.symm.trans hc)
  have hdead : d.alive = false → d.socketFd < 0 := fun hdead => by
    by_contra hpos
    rw [htracked.live.2 (by omega)] at hdead
    cases hdead
  split_ifs with hevents
  · -- events are left, and the descriptor is not 0
    right
    rcases Connection.markDead_cases htracked.live (times k) with ⟨-, hclosed⟩ | ⟨h0, -⟩
    · exact ⟨hclosed.alive_eq, hclosed.socketFd_lt⟩
    · have := hrule d (List.mem_of_getElem? hd) (htracked.live.2 h0.ge)
      omega
  · rw [Bool.or_eq_true, not_or, Bool.not_eq_true, Bool.not_eq_true] at hevents
    by_cases halive : d.alive = true
    · left
      have hleft : d.bufferWriter.msgIovlen = 0 := by
        by_contra hleft
        rw [(hmasked.out_iff halive).2 hleft] at hevents
        cases hevents.1
      refine ⟨halive, ?_, hmasked.processed halive hevents.2 hleft⟩
      unfold BufferWriter.unread BufferWriter.getReadPtr
      rw [hleft, List.take_zero, List.flatten_nil]
    · have hfalse : d.alive = false := by simpa using halive
      exact .inr ⟨hfalse, hdead hfalse⟩

/-- The first `poll` times out. -/
theorem waitPoll_failed_once : ∃ (s : PollLoop) (c : Connection),
    (getOne.dispatch (.init 1)).startPoll.exec (.fail .pollTimeoutErr fun _ => 0) = some s ∧
      s.pool.conns[0]? = some c ∧
        (c.alive = true ∧ c.bufferWriter.unread = [] ∧ c.traffic.processed = some .ok ∨
          c.alive = false ∧ c.socketFd < 0) := by
  have hfail : (getOne.dispatch (.init 1)).startPoll.exec (.fail .pollTimeoutErr fun _ => 0) =
      some _ := rfl
  have hsteps : PollLoop.Steps PollLoop.Descriptors (getOne.dispatch (.init 1)).startPoll _ :=
    .single ⟨_, PollLoop.step_of_exec _ hfail, by unfold PollLoop.Descriptors; decide⟩
  exact ⟨_, _, hfail, rfl,
    waitPoll_failed (.init 1 : Reachable {} _) getOne hsteps rfl (i := 0) (by decide) rfl⟩

end Libmc
