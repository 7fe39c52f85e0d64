import Mathlib.Logic.Relation
import Mathlib.Logic.Function.Basic
import Mathlib.Tactic

/-!
# Clients of a shared server

A session is a program that sends commands to a server and goes on with the replies. It ends with
a result or fails. `exec` runs one session alone against a server that is a function. `Runs` runs it
against a server that is a relation, and keeps a record of each command. `Steps` runs several sessions
against one server that is a relation, in any order of their commands.

`Safe R G Q p` is the rule for the second: as long as every reply satisfies `R`, the session sends
only commands of `G`, and its result satisfies `Q`. If the commands of `G` keep an invariant that
answers by `R`, it holds of every order of the commands (`Steps.safe`).
-/

/-- A program that sends commands `κ`; a command `c` is answered by a `ρ c`. -/
inductive Session (κ : Type) (ρ : κ → Type) (α : Type) : Type
  | ret (a : α)
  | fail
  | call (c : κ) (next : ρ c → Session κ ρ α)

namespace Session

variable {κ : Type} {ρ : κ → Type} {α β σ : Type}

def bind : Session κ ρ α → (α → Session κ ρ β) → Session κ ρ β
  | ret a, f => f a
  | fail, _ => fail
  | call c next, f => call c fun r => bind (next r) f

instance : Monad (Session κ ρ) where
  pure := ret
  bind := bind

def send (c : κ) : Session κ ρ (ρ c) := call c ret

/-- The value, if there is one. -/
def ofOption : Option α → Session κ ρ α
  | some a => ret a
  | none => fail

/-- One session for each element, one after the other. -/
def each {γ : Type} (f : γ → Session κ ρ β) : List γ → Session κ ρ (List β)
  | [] => ret []
  | x :: xs => do
    let y ← f x
    let ys ← each f xs
    return y :: ys

@[simp] theorem ret_bind (a : α) (f : α → Session κ ρ β) : (ret a >>= f) = f a := rfl
@[simp] theorem pure_bind (a : α) (f : α → Session κ ρ β) :
    ((pure a : Session κ ρ α) >>= f) = f a := rfl
@[simp] theorem fail_bind (f : α → Session κ ρ β) : ((fail : Session κ ρ α) >>= f) = fail := rfl
@[simp] theorem call_bind (c : κ) (next : ρ c → Session κ ρ α) (f : α → Session κ ρ β) :
    (call c next >>= f) = call c fun r => next r >>= f := rfl
theorem bind_assoc {γ : Type} (p : Session κ ρ α) (f : α → Session κ ρ β) (g : β → Session κ ρ γ) :
    p >>= f >>= g = p >>= fun a => f a >>= g := by
  induction p with
  | ret a => rfl
  | fail => rfl
  | call c next ih => exact congrArg (call c) (funext fun r => ih r)

@[simp] theorem send_bind (c : κ) (f : ρ c → Session κ ρ β) : (send c >>= f) = call c f := rfl

/-! ### Alone -/

variable {server : σ → (c : κ) → ρ c × σ} {s s' : σ}

/-- The result, none for a failure, and the state of the server at the end. -/
def exec (server : σ → (c : κ) → ρ c × σ) : Session κ ρ α → σ → Option α × σ
  | ret a, s => (some a, s)
  | fail, s => (none, s)
  | call c next, s => exec server (next (server s c).1) (server s c).2

@[simp] theorem exec_ret (a : α) (s : σ) : exec server (ret a : Session κ ρ α) s = (some a, s) := rfl
@[simp] theorem exec_pure (a : α) (s : σ) : exec server (pure a : Session κ ρ α) s = (some a, s) :=
  rfl
@[simp] theorem exec_fail (s : σ) : exec server (fail : Session κ ρ α) s = (none, s) := rfl
@[simp] theorem exec_send (c : κ) (s : σ) :
    exec server (send c) s = (some (server s c).1, (server s c).2) := rfl

theorem exec_bind (p : Session κ ρ α) (f : α → Session κ ρ β) (s : σ) :
    exec server (p >>= f) s = match exec server p s with
      | (some a, s') => exec server (f a) s'
      | (none, s') => (none, s') := by
  induction p generalizing s with
  | ret a => rfl
  | fail => rfl
  | call c next ih => exact ih (server s c).1 (server s c).2

theorem exec_bind_some {p : Session κ ρ α} {f : α → Session κ ρ β} {a : α}
    (h : exec server p s = (some a, s')) : exec server (p >>= f) s = exec server (f a) s' := by
  rw [exec_bind, h]

theorem exec_bind_same {p : Session κ ρ α} {f : α → Session κ ρ β} {o : Option α} {g : α → Option β}
    (hp : exec server p s = (o, s)) (hf : ∀ a, exec server (f a) s = (g a, s)) :
    exec server (p >>= f) s = (o.bind g, s) := by
  rw [exec_bind, hp]
  cases o with
  | none => rfl
  | some a => exact hf a

theorem exec_ofOption (o : Option α) (s : σ) :
    exec server (ofOption o : Session κ ρ α) s = (o, s) := by
  cases o <;> rfl

theorem exec_bind_eq_some {p : Session κ ρ α} {f : α → Session κ ρ β} {b : β}
    (h : exec server (p >>= f) s = (some b, s')) :
    ∃ a t, exec server p s = (some a, t) ∧ exec server (f a) t = (some b, s') := by
  rw [exec_bind] at h
  rcases hp : exec server p s with ⟨_ | a, t⟩
  · rw [hp] at h
    cases h
  · rw [hp] at h
    exact ⟨a, t, rfl, h⟩

/-- The same session with other commands, which are answered in the same way. -/
def mapCall {κ' : Type} {ρ' : κ' → Type} (f : κ → κ') :
    Session κ (fun c => ρ' (f c)) α → Session κ' ρ' α
  | ret a => ret a
  | fail => fail
  | call c next => call (f c) fun r => mapCall f (next r)

theorem exec_mapCall {κ' : Type} {ρ' : κ' → Type} (server : σ → (c : κ') → ρ' c × σ) (f : κ → κ')
    (p : Session κ (fun c => ρ' (f c)) α) (s : σ) :
    exec server (mapCall f p) s = exec (fun s c => server s (f c)) p s := by
  induction p generalizing s with
  | ret a => rfl
  | fail => rfl
  | call c next ih => exact ih (server s (f c)).1 (server s (f c)).2

/-! ### Alone, with records -/

section

variable {ε : Type} {step : σ → (c : κ) → ε → ρ c → σ → Prop} {I : σ → Prop} {P : ε → Prop}
  {tr : List ε}

/-- A run of a session that ends with a result, and the records of its commands. -/
inductive Runs (step : σ → (c : κ) → ε → ρ c → σ → Prop) : Session κ ρ α → σ → List ε → α → σ → Prop
  | ret (a : α) (s : σ) : Runs step (ret a) s [] a s
  | call {c : κ} {next : ρ c → Session κ ρ α} {e : ε} {r : ρ c} {a : α} {tr : List ε} {s t s' : σ}
      (hs : step s c e r t) (h : Runs step (next r) t tr a s') :
      Runs step (call c next) s (e :: tr) a s'

/-- A run of a sequence is a run of its first part, and then one of the second. -/
theorem Runs.of_bind {p : Session κ ρ α} {f : α → Session κ ρ β} {b : β}
    (h : Runs step (p >>= f) s tr b s') : ∃ a tr₁ t tr₂, tr = tr₁ ++ tr₂ ∧
      Runs step p s tr₁ a t ∧ Runs step (f a) t tr₂ b s' := by
  induction p generalizing s tr with
  | ret a => exact ⟨a, [], s, tr, rfl, .ret a s, h⟩
  | fail => cases h
  | call c next ih =>
    cases h with
    | call hs h =>
      obtain ⟨a, tr₁, t, tr₂, rfl, h₁, h₂⟩ := ih _ h
      exact ⟨a, _ :: tr₁, t, tr₂, rfl, .call hs h₁, h₂⟩

theorem Runs.of_ret {a b : α} (h : Runs step (Session.ret a) s tr b s') : tr = [] ∧ b = a := by
  cases h
  exact ⟨rfl, rfl⟩

theorem Runs.of_send {c : κ} {r : ρ c} (h : Runs step (send c) s tr r s') :
    ∃ e, tr = [e] ∧ step s c e r s' := by
  cases h with
  | call hs h =>
    cases h
    exact ⟨_, rfl, hs⟩

theorem Runs.of_ofOption {o : Option α} {a : α} (h : Runs step (ofOption o) s tr a s') :
    tr = [] ∧ o = some a := by
  cases o with
  | none => cases h
  | some b =>
    obtain ⟨hnil, rfl⟩ := h.of_ret
    exact ⟨hnil, rfl⟩

/-- An invariant of the server, and what it gives for each command. -/
theorem Runs.forall_of {p : Session κ ρ α} {a : α} (h : Runs step p s tr a s') (h0 : I s)
    (hstep : ∀ s c e r s', I s → step s c e r s' → I s' ∧ P e) : I s' ∧ ∀ e ∈ tr, P e := by
  induction h with
  | ret => exact ⟨h0, List.forall_mem_nil _⟩
  | call hs _ ih =>
    obtain ⟨hI, hP⟩ := hstep _ _ _ _ _ h0 hs
    obtain ⟨hI', hall⟩ := ih hI
    exact ⟨hI', List.forall_mem_cons.2 ⟨hP, hall⟩⟩

end

/-! ### Together -/

variable {ι : Type} [DecidableEq ι] {step : σ → (c : κ) → ρ c → σ → Prop}

/-- One session sends its next command. -/
def Step (step : σ → (c : κ) → ρ c → σ → Prop) (x y : σ × (ι → Session κ ρ α)) : Prop :=
  ∃ i c next r, x.2 i = call c next ∧ step x.1 c r y.1 ∧ y.2 = Function.update x.2 i (next r)

def Steps (step : σ → (c : κ) → ρ c → σ → Prop) :
    σ × (ι → Session κ ρ α) → σ × (ι → Session κ ρ α) → Prop :=
  Relation.ReflTransGen (Step step)

/-- As long as replies satisfy `R`, commands are in `G`, and the result is in `Q`. -/
def Safe (R : (c : κ) → ρ c → Prop) (G : κ → Prop) (Q : α → Prop) : Session κ ρ α → Prop
  | ret a => Q a
  | fail => True
  | call c next => G c ∧ ∀ r, R c r → Safe R G Q (next r)

variable {R : (c : κ) → ρ c → Prop} {G : κ → Prop} {Q : α → Prop} {P : β → Prop}

theorem Safe.bind {p : Session κ ρ α} {f : α → Session κ ρ β} (hp : Safe R G Q p)
    (hf : ∀ a, Q a → Safe R G P (f a)) : Safe R G P (p >>= f) := by
  induction p with
  | ret a => exact hf a hp
  | fail => trivial
  | call c next ih => exact ⟨hp.1, fun r hr => ih r (hp.2 r hr)⟩

end Session
