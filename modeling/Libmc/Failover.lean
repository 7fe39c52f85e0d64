import Mathlib.Data.List.Rotate
import Libmc.Ketama
import Libmc.Support.Attempts

/-!
# Failover

When the server of a key cannot be reached, `getServerIt` goes round the ring from its point and
tries the points of the other servers, each once, until one can be reached
(`getServerIt_failover`). Nothing is assumed of the ring but that it is not empty.
-/

namespace Libmc

namespace KetamaSelector

open Attempts

variable {σ : Type} {tryReconnect : ℕ → σ → Bool × σ} {hashMd5 : Bytes → ℕ} {ks : KetamaSelector}
  {key : Bytes} {originConn n it it' : ℕ} {s s' : σ}

/-- The points of the ring after `it`, clockwise, and `it` itself at the end. -/
def clockwise (ks : KetamaSelector) (it : ℕ) : List ℕ := (List.range ks.endIt).rotate (it + 1)

/-- The points after `it` of other servers than its own. -/
def others (ks : KetamaSelector) (it : ℕ) : List ℕ :=
  (ks.clockwise it).filter fun p => ks.connAt p ≠ ks.connAt it

/-- `tryReconnect(false)` on the connection of a point. -/
def tryPoint (tryReconnect : ℕ → σ → Bool × σ) (ks : KetamaSelector) (it : ℕ) : σ → Bool × σ :=
  tryReconnect (ks.connAt it)

/-! ## The points that are passed -/

/-- The points that `n` rounds of the loop come to. -/
def passed (ks : KetamaSelector) : ℕ → ℕ → List ℕ
  | 0, _ => []
  | n + 1, it => ks.wrap (it + 1) :: passed ks n (ks.wrap (it + 1))

theorem wrap_succ (h : it < ks.endIt) : ks.wrap (it + 1) = (it + 1) % ks.endIt := by
  unfold wrap
  split_ifs with hend
  · rw [hend, Nat.mod_self]
  · rw [Nat.mod_eq_of_lt (by omega)]

theorem passed_eq (h : it < ks.endIt) :
    ks.passed n it = (List.range n).map fun j => (it + 1 + j) % ks.endIt := by
  induction n generalizing it with
  | zero => rfl
  | succ n ih =>
    have hlt : ks.wrap (it + 1) < ks.endIt := by
      rw [wrap_succ h]
      exact Nat.mod_lt _ (by omega)
    rw [passed, ih hlt, List.range_succ_eq_map, List.map_cons, List.map_map, wrap_succ h]
    congr 1
    apply List.map_congr_left
    intro j _
    show ((it + 1) % ks.endIt + 1 + j) % ks.endIt = (it + 1 + (j + 1)) % ks.endIt
    rw [Nat.add_assoc, Nat.mod_add_mod, Nat.add_comm 1 j]

/-- A whole round comes to every point once. -/
theorem passed_endIt (h : it < ks.endIt) : ks.passed ks.endIt it = ks.clockwise it := by
  rw [passed_eq h]
  unfold clockwise
  apply List.ext_getElem
  · simp
  · intro j hj hj'
    rw [List.getElem_rotate]
    simp only [List.getElem_map, List.getElem_range, List.length_range]
    congr 1
    omega

/-! ## The loop -/

theorem failover_cases (h : ks.failover tryReconnect originConn n it s = (it', s')) :
    Succeeded (ks.tryPoint tryReconnect)
        ((ks.passed n it).filter fun p => ks.connAt p ≠ originConn) it' s s' ∨
      it' = ks.endIt ∧ Failed (ks.tryPoint tryReconnect)
        ((ks.passed n it).filter fun p => ks.connAt p ≠ originConn) s s' := by
  induction n generalizing it s with
  | zero =>
    obtain ⟨rfl, rfl⟩ := Prod.mk.inj h
    exact .inr ⟨rfl, rfl⟩
  | succ n ih =>
    unfold failover at h
    dsimp only at h
    rw [passed]
    split_ifs at h with hne
    · rw [List.filter_cons_of_pos (by simpa using hne)]
      rcases htry : tryReconnect (ks.connAt (ks.wrap (it + 1))) s with ⟨alive, t⟩
      rw [htry] at h
      cases alive with
      | true =>
        obtain ⟨rfl, rfl⟩ := Prod.mk.inj h
        exact .inl (Succeeded.head htry)
      | false =>
        rcases ih h with hs | ⟨hend, hf⟩
        · exact .inl (hs.cons htry)
        · exact .inr ⟨hend, t, htry, hf⟩
    · rw [List.filter_cons_of_neg (by simpa using hne)]
      exact ih h

/-! ## The ring -/

theorem clockwise_perm (ks : KetamaSelector) (it : ℕ) :
    (ks.clockwise it).Perm (List.range ks.endIt) := List.rotate_perm _ _

theorem mem_others : n ∈ ks.others it ↔ n < ks.endIt ∧ ks.connAt n ≠ ks.connAt it := by
  unfold others
  rw [List.mem_filter, (ks.clockwise_perm it).mem_iff, List.mem_range, decide_eq_true_eq]

theorem nodup_others (ks : KetamaSelector) (it : ℕ) : (ks.others it).Nodup :=
  ((ks.clockwise_perm it).nodup_iff.2 List.nodup_range).filter _

theorem primaryIt_lt (hring : 0 < ks.endIt) (hashMd5 : Bytes → ℕ) (key : Bytes) :
    ks.primaryIt hashMd5 key < ks.endIt := by
  have hle : ∀ h, ks.lowerBound h ≤ ks.endIt := fun h => List.findIdx_le_length
  unfold primaryIt wrap
  split_ifs with h1 h2 h3
  · exact hring
  · exact hring
  · exact hring
  · exact lt_of_le_of_ne (hle _) h3

/-- The primary is reached, or another point is after all those before it have failed, or none. -/
theorem getServerIt_cases (hring : 0 < ks.endIt) (hservers : 0 < ks.nServers)
    (hfailover : ks.useFailover = true)
    (h : ks.getServerIt tryReconnect hashMd5 key true s = (it, s')) :
    (ks.tryPoint tryReconnect (ks.primaryIt hashMd5 key) s = (true, s') ∧
        it = ks.primaryIt hashMd5 key) ∨
      ∃ t, ks.tryPoint tryReconnect (ks.primaryIt hashMd5 key) s = (false, t) ∧
        (Succeeded (ks.tryPoint tryReconnect) (ks.others (ks.primaryIt hashMd5 key)) it t s' ∨
          it = ks.endIt ∧
            Failed (ks.tryPoint tryReconnect) (ks.others (ks.primaryIt hashMd5 key)) t s') := by
  unfold getServerIt at h
  rw [if_neg (by omega)] at h
  dsimp only at h
  rw [if_pos rfl] at h
  rcases htry : tryReconnect (ks.connAt (ks.primaryIt hashMd5 key)) s with ⟨alive, t⟩
  rw [htry] at h
  cases alive with
  | true =>
    obtain ⟨rfl, rfl⟩ := Prod.mk.inj h
    exact .inl ⟨htry, rfl⟩
  | false =>
    dsimp only at h
    rw [if_pos hfailover] at h
    have hcases := failover_cases h
    rw [show ks.continuum.length = ks.endIt from rfl,
      passed_endIt (primaryIt_lt hring hashMd5 key)] at hcases
    exact .inr ⟨t, htry, hcases⟩

/-- **Failover.** On any ring, for any key and any answers to the attempts: the primary is returned
if it is reached; otherwise the points of all other servers are tried clockwise, each at most once,
and the first that is reached is returned. The result is the end exactly when none is reached. -/
theorem getServerIt_failover (hring : 0 < ks.endIt) (hservers : 0 < ks.nServers)
    (hfailover : ks.useFailover = true)
    (h : ks.getServerIt tryReconnect hashMd5 key true s = (it, s')) :
    let primary := ks.primaryIt hashMd5 key
    let attempt := ks.tryPoint tryReconnect
    ((attempt primary s = (true, s') ∧ it = primary) ∨
      ∃ t, attempt primary s = (false, t) ∧
        (Succeeded attempt (ks.others primary) it t s' ∨
          it = ks.endIt ∧ Failed attempt (ks.others primary) t s')) ∧
    (it = ks.endIt ↔
      ∃ t, attempt primary s = (false, t) ∧ Failed attempt (ks.others primary) t s') ∧
    ((ks.getConn tryReconnect hashMd5 key true s).1 = none ↔ it = ks.endIt) ∧
    ((attempt primary s).1 = false → it ≠ ks.endIt → ks.connAt it ≠ ks.connAt primary) ∧
    primary < ks.endIt ∧ (ks.others primary).Nodup ∧
    (ks.clockwise primary).Perm (List.range ks.endIt) ∧
    ∀ p, p ∈ ks.others primary ↔ p < ks.endIt ∧ ks.connAt p ≠ ks.connAt primary := by
  intro primary attempt
  have hprimary : primary < ks.endIt := primaryIt_lt hring hashMd5 key
  have hcases := getServerIt_cases hring hservers hfailover h
  refine ⟨hcases, ⟨fun hend => ?_, ?_⟩, ?_, fun hfail hend => ?_, hprimary, ks.nodup_others _,
    ks.clockwise_perm _, fun p => mem_others⟩
  · rcases hcases with ⟨-, hit⟩ | ⟨t, ht, hs | ⟨-, hf⟩⟩
    · exact absurd (hit.symm.trans hend) hprimary.ne
    · exact absurd hend (mem_others.1 hs.mem).1.ne
    · exact ⟨t, ht, hf⟩
  · rintro ⟨t, ht, hf⟩
    rcases hcases with ⟨hok, -⟩ | ⟨u, hu, hs | ⟨hend, -⟩⟩
    · cases hok.symm.trans ht
    · obtain rfl : t = u := congrArg Prod.snd (ht.symm.trans hu)
      exact absurd hs hf.not_succeeded
    · exact hend
  · unfold getConn
    rw [h]
    dsimp only
    split_ifs with hend
    · exact iff_of_true rfl hend
    · exact iff_of_false (by simp) hend
  · rcases hcases with ⟨hok, -⟩ | ⟨t, ht, hs | ⟨hend', -⟩⟩
    · change attempt primary s = (true, s') at hok
      rw [hok] at hfail
      cases hfail
    · exact (mem_others.1 hs.mem).2
    · exact absurd hend' hend

/-- Of three points, the two of the first server fail and the one of the second is returned. -/
theorem getServerIt_failover_second :
    let ks : KetamaSelector :=
      { continuum := [⟨10, 0⟩, ⟨20, 0⟩, ⟨30, 1⟩], nServers := 2, useFailover := true }
    ks.getServerIt (fun i n => (decide (i = 1), n + 1)) (fun _ => 5) [] true 0 = (2, 2) ∧
      ks.connAt 2 ≠ ks.connAt (ks.primaryIt (fun _ => 5) []) := by
  intro ks
  have h : ks.getServerIt (fun i n => (decide (i = 1), n + 1)) (fun _ => 5) [] true 0 = (2, 2) := by
    decide
  have hspec := getServerIt_failover (by decide) (by decide) rfl h
  exact ⟨h, hspec.2.2.2.1 (by decide) (by decide)⟩

end KetamaSelector

end Libmc
