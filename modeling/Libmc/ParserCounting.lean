import Libmc.ParserSteps

/-!
# One reply line per key

In `MODE_COUNTING` the replies carry no key: the `i`-th line belongs to the `i`-th request key.
`process_packets_counting` says what the parser makes of any lines followed by the beginning of
another one, in any chunks.
-/

namespace Libmc

inductive ReplyLine
  | stored
  | notStored
  | exists_
  | notFound
  | deleted
  | touched
  | error
  | clientError (text : Bytes)
  | serverError (text : Bytes)
  deriving DecidableEq, Repr

namespace ReplyLine

def bytes : ReplyLine → Bytes
  | stored => ascii "STORED\r\n"
  | notStored => ascii "NOT_STORED\r\n"
  | exists_ => ascii "EXISTS\r\n"
  | notFound => ascii "NOT_FOUND\r\n"
  | deleted => ascii "DELETED\r\n"
  | touched => ascii "TOUCHED\r\n"
  | error => ascii "ERROR\r\n"
  | clientError text => ascii "CLIENT_ERROR " ++ text ++ crlf
  | serverError text => ascii "SERVER_ERROR " ++ text ++ crlf

/-- The type of a message line, `none` for an error line. -/
def messageType : ReplyLine → Option MessageResultType
  | stored => some .stored
  | notStored => some .notStored
  | exists_ => some .exists_
  | notFound => some .notFound
  | deleted => some .deleted
  | touched => some .touched
  | _ => none

/-- The code that an error line makes `process_packets` return. -/
def code : ReplyLine → ErrCode
  | serverError _ => .mcServerErr
  | _ => .programmingErr

/-- It is one line: the text has no line feed. -/
def Single : ReplyLine → Prop
  | clientError text => lf ∉ text
  | serverError text => lf ∉ text
  | _ => True

def result (l : ReplyLine) (key : Bytes) : MessageResult :=
  ⟨l.messageType.getD .libmcInvalid, some key⟩

end ReplyLine

namespace PacketParser

variable {v : Flat} {l : ReplyLine} {ls : List ReplyLine} {t p b : Bytes}

/-- What the parser does with one line. -/
def lineAction (l : ReplyLine) (v : Flat) : Except ErrCode Unit × Flat :=
  match l.messageType with
  | some tp => (.ok (), processMessageResult tp v)
  | none => (.error l.code, setState .error v)

theorem startState_line (hl : l.Single) (hr : v.bufferReader = l.bytes ++ t) :
    startState v = lineAction l { v with bufferReader := t } := by
  cases l with
  | stored => exact startState_stored (w := [82, 69, 68, 13, 10]) hr rfl
  | notStored =>
    exact startState_notStored [79, 84, 95] [84, 79, 82, 69, 68, 13, 10] hr rfl rfl
  | exists_ => exact startState_exists (w := [73, 83, 84, 83, 13, 10]) hr rfl
  | notFound =>
    exact startState_notFound [79, 84, 95] [79, 85, 78, 68, 13, 10] hr rfl rfl
  | deleted => exact startState_deleted (w := [69, 76, 69, 84, 69, 68, 13, 10]) hr rfl
  | touched => exact startState_touched (w := [79, 85, 67, 72, 69, 68, 13, 10]) hr rfl
  | error => exact startState_error (u := [82, 79, 82, 13]) hr (by decide)
  | clientError text =>
    refine startState_clientError (u := ascii "LIENT_ERROR " ++ text ++ [cr]) (hr.trans ?_) ?_
    · simp [ReplyLine.bytes, ascii, crlf]
    · simp only [List.mem_append, not_or]
      exact ⟨⟨by decide, hl⟩, by decide⟩
  | serverError text =>
    refine startState_serverError 69 82 (u := ascii "VER_ERROR " ++ text ++ [cr])
      (hr.trans ?_) (by decide) ?_
    · simp [ReplyLine.bytes, ascii, crlf]
    · simp only [List.mem_cons, List.mem_append, not_or]
      exact ⟨by decide, by decide, ⟨by decide, hl⟩, by decide⟩

theorem lineAction_bufferReader (l : ReplyLine) (v : Flat) :
    (lineAction l v).2.bufferReader = v.bufferReader := by
  unfold lineAction processMessageResult
  cases l <;> rfl

/-- A line that is not all there is left alone. -/
theorem startState_prefix (hl : l.Single) (hp : v.bufferReader ++ b = l.bytes) (hb : b ≠ []) :
    startState v = (incomplete, v) := by
  have hr : (v.feed b).bufferReader = l.bytes ++ [] := by
    rw [List.append_nil, ← hp]
    rfl
  refine startState_short hb ?_
  rw [startState_line hl hr]
  exact lineAction_bufferReader l _

/-- The lines that answer a key: the messages among the first `n` lines, up to an error line. -/
def answered (n : ℕ) (ls : List ReplyLine) : List ReplyLine :=
  (ls.take n).takeWhile (·.messageType.isSome)

/-- What `process_packets` is to return: the code, and what is left of the lines. -/
def outcome (n : ℕ) (ls : List ReplyLine) : ErrCode × List ReplyLine :=
  if (answered n ls).length = n then (.ok, ls.drop n)
  else
    match ls[(answered n ls).length]? with
    | some l => (l.code, ls.drop ((answered n ls).length + 1))
    | none => (.incompleteBufferErr, [])

theorem answered_cons_message {n : ℕ} {tp : MessageResultType} (h : l.messageType = some tp) :
    answered (n + 1) (l :: ls) = l :: answered n ls := by
  unfold answered
  rw [List.take_succ_cons, List.takeWhile_cons_of_pos (by rw [h]; rfl)]

theorem answered_cons_error {n : ℕ} (h : l.messageType = none) :
    answered (n + 1) (l :: ls) = [] := by
  unfold answered
  rw [List.take_succ_cons, List.takeWhile_cons_of_neg (by rw [h]; simp)]

theorem outcome_cons_message {n : ℕ} {tp : MessageResultType} (h : l.messageType = some tp) :
    outcome (n + 1) (l :: ls) = outcome n ls := by
  unfold outcome
  rw [answered_cons_message h]
  simp only [List.length_cons, Nat.add_right_cancel_iff, List.drop_succ_cons,
    List.getElem?_cons_succ]

theorem outcome_cons_error {n : ℕ} (h : l.messageType = none) :
    outcome (n + 1) (l :: ls) = (l.code, ls) := by
  unfold outcome
  rw [answered_cons_error h]
  simp

theorem outcome_zero : outcome 0 ls = (.ok, ls) := by
  simp [outcome, answered]

theorem outcome_nil {n : ℕ} : outcome (n + 1) [] = (.incompleteBufferErr, []) := by
  simp [outcome, answered]

theorem answered_length_le (n : ℕ) (ls : List ReplyLine) : (answered n ls).length ≤ n :=
  ((List.takeWhile_prefix _).length_le).trans (List.length_take_le n ls)

theorem outcome_full {n : ℕ} (h : (answered n ls).length = n) : outcome n ls = (.ok, ls.drop n) :=
  if_pos h

theorem outcome_error {n : ℕ} (h : (answered n ls).length < n)
    (hl : ls[(answered n ls).length]? = some l) :
    outcome n ls = (l.code, ls.drop ((answered n ls).length + 1)) := by
  unfold outcome
  rw [if_neg h.ne, hl]

theorem outcome_short {n : ℕ} (h : (answered n ls).length < n)
    (hl : ls[(answered n ls).length]? = none) : outcome n ls = (.incompleteBufferErr, []) := by
  unfold outcome
  rw [if_neg h.ne, hl]

/-- More bytes are asked for only when every line there is answers a key and keys are left. -/
theorem outcome_incomplete {n : ℕ} (h : (outcome n ls).1 = .incompleteBufferErr) :
    ls.length < n ∧ ∀ l ∈ ls, l.messageType ≠ none := by
  rcases (answered_length_le n ls).lt_or_eq with hlt | heq
  · rcases hl : ls[(answered n ls).length]? with _ | l
    · have hge := List.getElem?_eq_none_iff.1 hl
      have htake : ls.take n = ls := List.take_of_length_le (by omega)
      have hall : answered n ls = ls := by
        unfold answered at hge ⊢
        rw [htake] at hge ⊢
        exact (List.takeWhile_prefix _).eq_of_length_le hge
      refine ⟨by omega, fun l hl hnone => ?_⟩
      rw [← hall, answered] at hl
      have := List.mem_takeWhile_imp hl
      rw [hnone] at this
      cases this
    · rw [outcome_error hlt hl] at h
      cases l <;> cases h
  · rw [outcome_full heq] at h
    cases h

/-- The bytes after the lines say no more than the lines do, or begin one more line. -/
def Trailing (n : ℕ) (ls : List ReplyLine) (t : Bytes) : Prop :=
  (outcome n ls).1 = .incompleteBufferErr →
    ∃ l : ReplyLine, l.Single ∧ ∃ b, b ≠ [] ∧ t ++ b = l.bytes

/-- The bytes of lines. -/
def linesBytes (ls : List ReplyLine) : Bytes := ls.flatMap ReplyLine.bytes

theorem canEndParse_counting (hm : v.mode = .counting) :
    v.canEndParse = decide (v.requestKeyIdx = v.requestKeys.length) := by
  unfold canEndParse
  rw [hm]
  rfl

/-- What a call is to do to a parser that waits for the keys `ks`. -/
structure Answers (v : Flat) (ks : List Bytes) (ls : List ReplyLine) (t : Bytes) (e : ErrCode)
    (w : Flat) : Prop where
  code : e = (outcome ks.length ls).1
  results : w.messageResults =
    v.messageResults ++ List.zipWith ReplyLine.result (answered ks.length ls) ks
  unread : w.bufferReader = linesBytes (outcome ks.length ls).2 ++ t

/-- A call on lines, by induction on the lines: each message line answers the next key. -/
theorem returns_lines {ks : List Bytes} (hls : ∀ l ∈ ls, l.Single) (hm : v.mode = .counting)
    (hst : v.state = .start) (hidx : v.requestKeyIdx ≤ v.requestKeys.length)
    (hks : v.requestKeys.drop v.requestKeyIdx = ks) (ht : Trailing ks.length ls t)
    (hr : v.bufferReader = linesBytes ls ++ t) :
    ∃ e w, Loop.Returns body v (e, w) ∧ Answers v ks ls t e w := by
  induction ls generalizing v ks with
  | nil =>
    cases ks with
    | nil =>
      have hend : v.canEndParse = true := by
        have := List.drop_eq_nil_iff.1 hks
        rw [canEndParse_counting hm]
        exact decide_eq_true (by omega)
      exact ⟨_, _, Loop.returns_of_inr (body_of_canEndParse hend), rfl, by simp [answered], hr⟩
    | cons k ks =>
      have hend : v.canEndParse = false := by
        rw [canEndParse_counting hm]
        refine decide_eq_false fun h => ?_
        rw [List.drop_eq_nil_of_le h.ge] at hks
        cases hks
      obtain ⟨l, hl, b, hb, htb⟩ := ht (by rw [List.length_cons, outcome_nil])
      have hrun : body v = .inr (.incompleteBufferErr, v) := by
        rw [body_start hend hst, startState_prefix hl (by rw [hr]; exact htb) hb]
        rfl
      exact ⟨_, _, Loop.returns_of_inr hrun, by rw [List.length_cons, outcome_nil],
        by simp [answered], by rw [List.length_cons, outcome_nil]; exact hr⟩
  | cons l ls ih =>
    cases ks with
    | nil =>
      have hend : v.canEndParse = true := by
        have := List.drop_eq_nil_iff.1 hks
        rw [canEndParse_counting hm]
        exact decide_eq_true (by omega)
      refine ⟨_, _, Loop.returns_of_inr (body_of_canEndParse hend), ?_, by simp [answered], ?_⟩
      · rw [List.length_nil, outcome_zero]
      · rw [List.length_nil, outcome_zero, hr]
    | cons k ks =>
      have hlt : v.requestKeyIdx < v.requestKeys.length := by
        by_contra hge
        rw [List.drop_eq_nil_of_le (by omega)] at hks
        cases hks
      have hend : v.canEndParse = false := by
        rw [canEndParse_counting hm]
        exact decide_eq_false hlt.ne
      rw [List.drop_eq_getElem_cons hlt] at hks
      obtain ⟨hk, hks'⟩ := List.cons.inj hks
      have hline : startState v = lineAction l { v with bufferReader := linesBytes ls ++ t } :=
        startState_line (hls l List.mem_cons_self) (by rw [hr]; simp [linesBytes])
      have hbody : body v = goOn (lineAction l { v with bufferReader := linesBytes ls ++ t }) := by
        rw [body_start hend hst, hline]
      rcases hmsg : l.messageType with _ | tp
      · -- an error line ends the call
        have hrun : body v = .inr (l.code,
            setState .error { v with bufferReader := linesBytes ls ++ t }) := by
          rw [hbody, lineAction, hmsg]
          rfl
        refine ⟨_, _, Loop.returns_of_inr hrun, ?_, ?_, ?_⟩
        · rw [List.length_cons, outcome_cons_error hmsg]
        · rw [List.length_cons, answered_cons_error hmsg]
          simp [setState]
        · rw [List.length_cons, outcome_cons_error hmsg]
          rfl
      · have htp : tp ≠ .ok := by
          rintro rfl
          cases l <;> cases hmsg
        have hrun : body v = .inl (processMessageResult tp
            { v with bufferReader := linesBytes ls ++ t }) := by
          rw [hbody, lineAction, hmsg]
          rfl
        have hkey : v.requestKey = k := by
          unfold requestKey
          rw [List.getElem?_eq_getElem hlt, hk]
          rfl
        rw [List.length_cons] at ht
        have ht' : Trailing ks.length ls t := by
          unfold Trailing at ht ⊢
          rwa [outcome_cons_message hmsg] at ht
        obtain ⟨e, w, hret, hw⟩ := ih
          (v := processMessageResult tp { v with bufferReader := linesBytes ls ++ t })
          (fun l' hl' => hls l' (List.mem_cons_of_mem _ hl')) (by simpa using hm)
          (by simpa using hst) (by simpa [htp] using hlt) (by simpa [htp] using hks') ht'
          (processMessageResult_bufferReader _ _)
        refine ⟨e, w, (Loop.returns_of_inl hrun).2 hret, ?_, ?_, ?_⟩
        · rw [List.length_cons, outcome_cons_message hmsg]
          exact hw.code
        · rw [List.length_cons, answered_cons_message hmsg, hw.results]
          rw [processMessageResult_messageResults _ htp, List.append_assoc, List.singleton_append,
            List.zipWith_cons_cons, ReplyLine.result, hmsg, ← hkey]
          rfl
        · rw [List.length_cons, outcome_cons_message hmsg]
          exact hw.unread

/-- **Attribution by position.** A parser in `MODE_COUNTING` that is given reply lines and then
bytes that end before another line does. The first `j` lines are messages and there are keys for
them: they become the results of the first `j` keys, in order. The call returns `RET_OK` when
every key is answered, the code of an error line when that comes first, and asks for more bytes
otherwise; the lines used are consumed and the bytes after them are left. -/
theorem process_packets_counting (keys : List Bytes) (ls : List ReplyLine) (t : Bytes)
    (hls : ∀ l ∈ ls, l.Single)
    (ht : ls.length < keys.length → (∀ l ∈ ls, l.messageType ≠ none) →
      ∃ l : ReplyLine, l.Single ∧ t <+: l.bytes ∧ t ≠ l.bytes)
    (minCapacity : ℕ) (chunks : List Bytes) (hne : chunks ≠ [])
    (hflat : chunks.flatten = ls.flatMap ReplyLine.bytes ++ t) :
    ∃ n e q rest, (machine minCapacity).feedPieces n (fresh keys .counting) chunks =
        some (e, q, rest) ∧
      let done := (ls.take keys.length).takeWhile (·.messageType.isSome)
      let unread := q.view.bufferReader ++ rest.flatten
      q.messageResults = List.zipWith ReplyLine.result done keys ∧
      (done.length = keys.length → e = .ok ∧
        unread = (ls.drop keys.length).flatMap ReplyLine.bytes ++ t) ∧
      (∀ l, done.length < keys.length → ls[done.length]? = some l → e = l.code ∧
        unread = (ls.drop (done.length + 1)).flatMap ReplyLine.bytes ++ t) ∧
      (done.length < keys.length → ls[done.length]? = none → e = .incompleteBufferErr ∧
        unread = t) := by
  have htr : Trailing keys.length ls t := by
    intro hinc
    obtain ⟨hlt, hall⟩ := outcome_incomplete hinc
    obtain ⟨l, hl, ⟨b, hb⟩, hneq⟩ := ht hlt hall
    exact ⟨l, hl, b, fun hnil => hneq (by rw [← hb, hnil, List.append_nil]), hb⟩
  obtain ⟨e, w, hret, hw⟩ : ∃ e w,
      Loop.Returns body ((fresh keys .counting).view.feed chunks.flatten) (e, w) ∧
        Answers ((fresh keys .counting).view.feed chunks.flatten) keys ls t e w :=
    returns_lines hls rfl rfl (Nat.zero_le _) rfl htr hflat
  obtain ⟨n, q, rest, hpieces, -, hq⟩ := feedPieces_of_returns (fresh_ok keys .counting) hne
    minCapacity hret
  have hcode := hw.code
  have hunread : q.view.bufferReader ++ rest.flatten = linesBytes (outcome keys.length ls).2 ++ t := by
    rw [← hw.unread, ← hq]
    rfl
  refine ⟨n, e, q, rest, hpieces, ?_, fun hfull => ?_, fun l hlt hl => ?_, fun hlt hl => ?_⟩
  · have hres := hw.results
    rw [← hq] at hres
    exact hres
  · rw [outcome_full hfull] at hcode hunread
    exact ⟨hcode, hunread⟩
  · rw [outcome_error hlt hl] at hcode hunread
    exact ⟨hcode, hunread⟩
  · rw [outcome_short hlt hl] at hcode hunread
    exact ⟨hcode, hunread⟩

/-- The second of two keys waits for the end of its line. -/
theorem process_packets_counting_two :
    ∃ n e q rest, (machine 4).feedPieces n (fresh [ascii "a", ascii "b"] .counting)
        [ascii "STORED\r\nNO", ascii "T_"] = some (e, q, rest) ∧
      let done := ([ReplyLine.stored].take 2).takeWhile (·.messageType.isSome)
      let unread := q.view.bufferReader ++ rest.flatten
      q.messageResults = List.zipWith ReplyLine.result done [ascii "a", ascii "b"] ∧
      (done.length = 2 → e = .ok ∧
        unread = ([ReplyLine.stored].drop 2).flatMap ReplyLine.bytes ++ ascii "NOT_") ∧
      (∀ l, done.length < 2 → [ReplyLine.stored][done.length]? = some l → e = l.code ∧
        unread = ([ReplyLine.stored].drop (done.length + 1)).flatMap ReplyLine.bytes ++
          ascii "NOT_") ∧
      (done.length < 2 → [ReplyLine.stored][done.length]? = none → e = .incompleteBufferErr ∧
        unread = ascii "NOT_") :=
  process_packets_counting [ascii "a", ascii "b"] [.stored] (ascii "NOT_") (by simp [ReplyLine.Single])
    (fun _ _ => ⟨.notStored, trivial, by decide, by decide⟩) 4 _ (by decide) (by decide)

end PacketParser

end Libmc
