import Libmc.GoClient

/-!
# What `Version` and `Stats` report

Both go through the results of all servers with a pointer, which stays where it is at a result without
lines. So nothing behind the first server that has not answered is reported, and the loop is one over
the results in front of it (`broadcastLoop_eq`). The right report needs that the servers that have not
answered are the last ones, and lines that golibmc can take apart (`version_stats_iff`).
-/

namespace Libmc.Golibmc

variable {β : Type} {read : List Bytes → Option β} {Holds : List Bytes → β → Prop}
  {results : List BroadcastResult} {rv : Bytes → Option β} {rst rst' : BroadcastResult}
  {line name value : Bytes} {lines : List Bytes}

/-! ### The right report -/

/-- The hosts that have lines are reported, and no others, each with something that holds of its
lines. -/
structure ReportsLines (Holds : List Bytes → β → Prop) (results : List BroadcastResult)
    (rv : Bytes → Option β) : Prop where
  hosts : ∀ host x, rv host = some x → ∃ rst ∈ results, rst.host = host ∧ rst.lines ≠ []
  lines : ∀ rst ∈ results, rst.lines ≠ [] → ∃ x, rv rst.host = some x ∧ Holds rst.lines x

/-- `x` is the first line. -/
def FirstLine (lines : List Bytes) (x : Bytes) : Prop := lines.head? = some x

/-- The metrics are those of the lines. -/
def AllMetrics (lines : List Bytes) (metrics : Bytes → Option Bytes) : Prop :=
  ∀ name value, metrics name = some value ↔ ∃ line ∈ lines, splitN line = (name, some value)

/-- The servers without lines are behind those with lines. -/
def SilentLast (results : List BroadcastResult) : Prop :=
  results.Pairwise fun rst rst' => rst.lines = [] → rst'.lines = []

/-! ### The loop -/

/-- The results in front of the first one without lines. -/
def reached (results : List BroadcastResult) : List BroadcastResult :=
  results.takeWhile (·.lines ≠ [])

/-- What the loop puts into its map. -/
def entry (read : List Bytes → Option β) (rst : BroadcastResult) : Option (Bytes × β) :=
  (read rst.lines).map (rst.host, ·)

/-- At a result without lines the loop stays until its end. -/
theorem broadcastLoop_stays (h : rst.lines = []) (n : ℕ) (rest : List BroadcastResult) :
    broadcastLoop read n (rst :: rest) rv = some rv := by
  induction n with
  | zero => rfl
  | succ n ih =>
    rw [broadcastLoop, if_pos h]
    exact ih

theorem broadcastLoop_eq (read : List Bytes → Option β) (results : List BroadcastResult)
    (rv : Bytes → Option β) : broadcastLoop read results.length results rv =
      Table.fill (entry read) rv (reached results) := by
  induction results generalizing rv with
  | nil => rfl
  | cons rst rest ih =>
    unfold reached
    by_cases hlines : rst.lines = []
    · rw [broadcastLoop_stays hlines, List.takeWhile_cons_of_neg (by simpa using hlines)]
      rfl
    · rw [List.length_cons, broadcastLoop, if_neg hlines,
        List.takeWhile_cons_of_pos (by simpa using hlines), Table.fill, entry, Option.bind_map]
      exact Option.bind_congr fun x _ => ih _

theorem mem_reached (h : rst ∈ reached results) : rst ∈ results ∧ rst.lines ≠ [] :=
  ⟨(List.takeWhile_subset _) h, by simpa using List.mem_takeWhile_imp h⟩

/-- All results with lines are reached exactly if those without lines are the last ones. -/
theorem silentLast_iff (hnodup : results.Nodup) :
    SilentLast results ↔ ∀ rst ∈ results, rst.lines ≠ [] → rst ∈ reached results := by
  induction results with
  | nil => simp [SilentLast]
  | cons a l ih =>
    obtain ⟨ha, hl⟩ := List.nodup_cons.1 hnodup
    unfold SilentLast reached at *
    by_cases hlines : a.lines = []
    · rw [List.takeWhile_cons_of_neg (by simpa using hlines), List.pairwise_cons]
      constructor
      · rintro ⟨hnone, -⟩ rst hrst hsome
        rcases List.mem_cons.1 hrst with rfl | hrst
        · exact absurd hlines hsome
        · exact absurd (hnone rst hrst hlines) hsome
      · intro hall
        have hnone : ∀ rst ∈ l, rst.lines = [] := fun rst hrst => by
          by_contra hsome
          exact List.not_mem_nil (hall rst (List.mem_cons_of_mem _ hrst) hsome)
        exact ⟨fun rst hrst _ => hnone rst hrst,
          List.pairwise_of_forall_mem_list fun _ _ rst hrst _ => hnone rst hrst⟩
    · rw [List.takeWhile_cons_of_pos (by simpa using hlines), List.pairwise_cons, ih hl]
      constructor
      · rintro ⟨-, hall⟩ rst hrst hsome
        rcases List.mem_cons.1 hrst with rfl | hrst
        · exact List.mem_cons_self
        · exact List.mem_cons_of_mem _ (hall rst hrst hsome)
      · intro hall
        refine ⟨fun _ _ h => absurd h hlines, fun rst hrst hsome => ?_⟩
        rcases List.mem_cons.1 (hall rst (List.mem_cons_of_mem _ hrst) hsome) with rfl | hmem
        · exact absurd hrst ha
        · exact hmem

theorem host_eq_some_iff (hnodup : (results.map (·.host)).Nodup)
    (hfill : Table.fill (entry read) (fun _ => none) (reached results) = some rv)
    (hrst : rst ∈ results) {x : β} :
    rv rst.host = some x ↔ rst ∈ reached results ∧ read rst.lines = some x := by
  have hhost : ∀ a ∈ reached results, ∀ rst' ∈ results, ∀ y, entry read a = some (rst'.host, y) →
      a = rst' ∧ read a.lines = some y := by
    intro a ha rst' hrst' y hentry
    obtain ⟨z, hz, hpair⟩ := Option.map_eq_some_iff.1 hentry
    obtain ⟨hsame, rfl⟩ := Prod.mk.inj hpair
    exact ⟨List.inj_on_of_nodup_map hnodup (mem_reached ha).1 hrst' hsame, hz⟩
  have hsame : ∀ a ∈ reached results, ∀ b ∈ reached results, ∀ k v w,
      entry read a = some (k, v) → entry read b = some (k, w) → v = w := by
    intro a ha b hb k v w hv hw
    obtain ⟨y, -, hpair⟩ := Option.map_eq_some_iff.1 hv
    obtain ⟨rfl, -⟩ := Prod.mk.inj hpair
    obtain ⟨rfl, -⟩ := hhost b hb a (mem_reached ha).1 w hw
    exact (Prod.mk.inj (Option.some.inj (hv.symm.trans hw))).2
  rw [Table.fill_eq_some_iff hfill hsame]
  constructor
  · rintro ⟨a, ha, hentry⟩
    obtain ⟨rfl, hx⟩ := hhost a ha rst hrst x hentry
    exact ⟨ha, hx⟩
  · rintro ⟨hreached, hx⟩
    exact ⟨rst, hreached, by rw [entry, hx, Option.map_some]⟩

/-- The loop returns the right report exactly if it gets to every result with lines, and what it reads
of the lines holds of them. -/
theorem reports_iff (hnodup : (results.map (·.host)).Nodup) :
    (∃ rv, broadcastLoop read results.length results (fun _ => none) = some rv ∧
        ReportsLines Holds results rv) ↔
      SilentLast results ∧
        ∀ rst ∈ results, rst.lines ≠ [] → ∃ x, read rst.lines = some x ∧ Holds rst.lines x := by
  rw [silentLast_iff hnodup.of_map, broadcastLoop_eq]
  constructor
  · rintro ⟨rv, hfill, hosts, hlines⟩
    have hread : ∀ rst ∈ results, rst.lines ≠ [] → rst ∈ reached results ∧
        ∃ x, read rst.lines = some x ∧ Holds rst.lines x := by
      intro rst hrst hsome
      obtain ⟨x, hx, hholds⟩ := hlines rst hrst hsome
      obtain ⟨hreached, hread⟩ := (host_eq_some_iff hnodup hfill hrst).1 hx
      exact ⟨hreached, x, hread, hholds⟩
    exact ⟨fun rst hrst hsome => (hread rst hrst hsome).1,
      fun rst hrst hsome => (hread rst hrst hsome).2⟩
  · rintro ⟨hreached, hread⟩
    obtain ⟨rv, hfill⟩ := Table.exists_fill (f := entry read) (l := reached results)
      (fun rst hrst => by
        obtain ⟨x, hx, -⟩ := hread rst (mem_reached hrst).1 (mem_reached hrst).2
        exact ⟨(rst.host, x), by rw [entry, hx, Option.map_some]⟩) fun _ => none
    refine ⟨rv, hfill, fun host x hx => ?_, fun rst hrst hsome => ?_⟩
    · rcases Table.fill_cases hfill host with ⟨hnone, -⟩ | ⟨a, ha, y, hentry, -⟩
      · cases hx.symm.trans hnone
      · obtain ⟨z, -, hpair⟩ := Option.map_eq_some_iff.1 hentry
        exact ⟨a, (mem_reached ha).1, (Prod.mk.inj hpair).1, (mem_reached ha).2⟩
    · obtain ⟨x, hx, hholds⟩ := hread rst hrst hsome
      exact ⟨x, (host_eq_some_iff hnodup hfill hrst).2 ⟨hreached rst hrst hsome, hx⟩, hholds⟩

/-! ### The lines -/

/-- Every line is a metric that golibmc can take apart, and a name has one value. -/
structure Metrics (lines : List Bytes) : Prop where
  length_lt : ∀ line ∈ lines, line.length < 2 ^ 31
  space_mem : ∀ line ∈ lines, space ∈ line
  name_inj : ∀ line ∈ lines, ∀ line' ∈ lines, (splitN line).1 = (splitN line').1 → line = line'

theorem firstLine_iff (lines : List Bytes) (h : lines ≠ []) :
    (∃ x, firstLine lines = some x ∧ FirstLine lines x) ↔
      ∀ line ∈ lines.head?, line.length < 2 ^ 31 := by
  cases lines with
  | nil => exact absurd rfl h
  | cons line rest =>
    unfold firstLine
    rw [List.head?_cons, Option.bind_some]
    constructor
    · rintro ⟨x, hx, hfirst⟩ line' hline'
      obtain rfl := Option.some.inj hline'
      obtain rfl := Option.some.inj hfirst
      exact goStringN_eq_self_iff.1 hx
    · intro hlt
      exact ⟨line, goStringN_of_lt (hlt line rfl), rfl⟩

theorem splitN_append (h : space ∉ name) : splitN (name ++ space :: value) = (name, some value) := by
  unfold splitN
  rw [ByteQueue.takeWhile_ne_append h, ByteQueue.dropWhile_ne_append h]
  rfl

theorem splitN_eq_some (h : splitN line = (name, some value)) :
    line = name ++ space :: value ∧ space ∉ name := by
  by_cases hmem : space ∈ line
  · obtain ⟨u, v, rfl, hu⟩ := List.eq_append_cons_of_mem hmem
    rw [splitN_append hu] at h
    obtain ⟨rfl, hv⟩ := Prod.mk.inj h
    obtain rfl := Option.some.inj hv
    exact ⟨rfl, hu⟩
  · have hall : ∀ c ∈ line, (c != space) = true := fun c hc => by
      simpa using ne_of_mem_of_not_mem hc hmem
    unfold splitN at h
    rw [List.dropWhile_eq_nil_iff.2 hall] at h
    cases (Prod.mk.inj h).2

theorem splitN_of_mem (h : space ∈ line) : ∃ name value, splitN line = (name, some value) := by
  obtain ⟨u, v, rfl, hu⟩ := List.eq_append_cons_of_mem h
  exact ⟨u, v, splitN_append hu⟩

theorem metric_eq_some (h : metric line = some (name, value)) :
    name ++ space :: value <+: line ∧ (name ++ space :: value).length < 2 ^ 31 := by
  unfold metric at h
  obtain ⟨s, hs, hrest⟩ := Option.bind_eq_some_iff.1 h
  obtain ⟨v, hv, hpair⟩ := Option.bind_eq_some_iff.1 hrest
  obtain ⟨rfl, rfl⟩ := Prod.mk.inj (Option.some.inj hpair)
  rw [← (splitN_eq_some (Prod.ext rfl hv)).1]
  exact goStringN_eq_some hs

theorem metric_of_lt (hlt : line.length < 2 ^ 31) (h : splitN line = (name, some value)) :
    metric line = some (name, value) := by
  unfold metric
  rw [goStringN_of_lt hlt, Option.bind_eq_bind, Option.bind_some, h]
  rfl

/-- The inner loop gives all metrics of the lines exactly if it can take them apart and they agree on
the value of each name. -/
theorem metrics_iff (lines : List Bytes) :
    (∃ x, metrics lines = some x ∧ AllMetrics lines x) ↔ Metrics lines := by
  constructor
  · rintro ⟨x, hfill, hall⟩
    have hspace : ∀ line ∈ lines, space ∈ line := fun line hline => by
      obtain ⟨⟨name, value⟩, hmetric⟩ := Table.exists_of_fill hfill line hline
      exact (metric_eq_some hmetric).1.subset (by simp)
    refine ⟨fun line hline => ?_, hspace, fun line hline line' hline' hname => ?_⟩
    · obtain ⟨name, value, hsplit⟩ := splitN_of_mem (hspace line hline)
      have hx := (hall name value).2 ⟨line, hline, hsplit⟩
      rcases Table.fill_cases hfill name with ⟨hnone, -⟩ | ⟨a, -, v, hmetric, hv⟩
      · cases hx.symm.trans hnone
      · obtain rfl := Option.some.inj (hx.symm.trans hv)
        rw [(splitN_eq_some hsplit).1]
        exact (metric_eq_some hmetric).2
    · obtain ⟨name, value, hsplit⟩ := splitN_of_mem (hspace line hline)
      obtain ⟨name', value', hsplit'⟩ := splitN_of_mem (hspace line' hline')
      rw [hsplit, hsplit'] at hname
      obtain rfl : name = name' := hname
      have hx := (hall name value).2 ⟨line, hline, hsplit⟩
      have hx' := (hall name value').2 ⟨line', hline', hsplit'⟩
      rw [(splitN_eq_some hsplit).1, (splitN_eq_some hsplit').1, Option.some.inj (hx.symm.trans hx')]
  · rintro ⟨hlt, hspace, hinj⟩
    have hmetric : ∀ line ∈ lines, ∀ name value, splitN line = (name, some value) →
        metric line = some (name, value) := fun line hline _ _ => metric_of_lt (hlt line hline)
    have hsplit : ∀ line ∈ lines, ∀ name value, metric line = some (name, value) →
        splitN line = (name, some value) := fun line hline name value h => by
      obtain ⟨name', value', hsplit'⟩ := splitN_of_mem (hspace line hline)
      obtain ⟨rfl, rfl⟩ := Prod.mk.inj
        (Option.some.inj (h.symm.trans (hmetric line hline _ _ hsplit')))
      exact hsplit'
    obtain ⟨x, hfill⟩ := Table.exists_fill (f := metric) (l := lines) (fun line hline => by
      obtain ⟨name, value, h⟩ := splitN_of_mem (hspace line hline)
      exact ⟨(name, value), hmetric line hline name value h⟩) fun _ => none
    have hsame : ∀ a ∈ lines, ∀ b ∈ lines, ∀ k v w, metric a = some (k, v) →
        metric b = some (k, w) → v = w := by
      intro a ha b hb k v w hv hw
      have hname : (splitN a).1 = (splitN b).1 := by rw [hsplit a ha k v hv, hsplit b hb k w hw]
      obtain rfl := hinj a ha b hb hname
      exact (Prod.mk.inj (Option.some.inj (hv.symm.trans hw))).2
    refine ⟨x, hfill, fun name value => (Table.fill_eq_some_iff hfill hsame).trans ?_⟩
    constructor
    · rintro ⟨a, ha, hv⟩
      exact ⟨a, ha, hsplit a ha name value hv⟩
    · rintro ⟨line, hline, h⟩
      exact ⟨line, hline, hmetric line hline name value h⟩

/-! ### The reports -/

theorem broadcastEnded_returned (errCode : ErrCode) (rv : Option (Bytes → Option β))
    (P : (Bytes → Option β) → Prop) :
    (∃ rv' err, (broadcastEnded errCode rv).returned = some (rv', err) ∧ P rv') ↔
      ∃ rv', rv = some rv' ∧ P rv' := by
  cases rv with
  | none => simp [broadcastEnded, Ended.panicked]
  | some rv => simp [broadcastEnded, Ended.unnamed]

/-- **Versions and statistics of all servers.** `Version` returns the hosts that have lines, each with
its first line, exactly if the servers without lines are the last ones and no first line is longer than
an `int` can say. `Stats` returns them, each with all its metrics, exactly if the servers without lines
are the last ones and the lines of each server are metrics. -/
theorem version_stats_iff (hnodup : (results.map (·.host)).Nodup) (errCode : ErrCode) :
    ((∃ rv err, (version errCode results).returned = some (rv, err) ∧
        ReportsLines FirstLine results rv) ↔
        SilentLast results ∧ ∀ rst ∈ results, ∀ line ∈ rst.lines.head?, line.length < 2 ^ 31) ∧
      ((∃ rv err, (stats errCode results).returned = some (rv, err) ∧
        ReportsLines AllMetrics results rv) ↔
        SilentLast results ∧ ∀ rst ∈ results, Metrics rst.lines) := by
  constructor
  · refine (broadcastEnded_returned ..).trans ((reports_iff hnodup).trans (and_congr_right fun _ => ?_))
    refine forall₂_congr fun rst _ => ⟨fun h line hline => ?_, fun h hsome => ?_⟩
    · have hsome : rst.lines ≠ [] := fun hnone => by
        rw [hnone] at hline
        cases hline
      exact (firstLine_iff _ hsome).1 (h hsome) line hline
    · exact (firstLine_iff _ hsome).2 h
  · refine (broadcastEnded_returned ..).trans ((reports_iff hnodup).trans (and_congr_right fun _ => ?_))
    refine forall₂_congr fun rst _ => ⟨fun h => ?_, fun h _ => (metrics_iff _).2 h⟩
    by_cases hnone : rst.lines = []
    · rw [hnone]
      exact ⟨List.forall_mem_nil _, List.forall_mem_nil _, List.forall_mem_nil _⟩
    · exact (metrics_iff _).1 (h hnone)

/-- Two servers; the second one does not answer. -/
theorem version_stats_iff_two : ∃ rv err,
    (version .connPollErr (collectBroadcastResult false
      [⟨ascii "a:1", [ascii "1.6"], []⟩, ⟨ascii "b:1", [], []⟩])).returned = some (rv, err) ∧
      ReportsLines FirstLine (collectBroadcastResult false
        [⟨ascii "a:1", [ascii "1.6"], []⟩, ⟨ascii "b:1", [], []⟩]) rv :=
  (version_stats_iff (by decide) .connPollErr).1.2
    ⟨by simp [SilentLast, collectBroadcastResult], by simp [collectBroadcastResult]; decide⟩

/-- The first one does not answer; what the second one has answered is not returned. -/
theorem version_stats_not_all : ¬ ∀ (results : List BroadcastResult) (errCode : ErrCode),
    (results.map (·.host)).Nodup →
      (∃ rv err, (version errCode results).returned = some (rv, err) ∧
        ReportsLines FirstLine results rv) ∧
      ∃ rv err, (stats errCode results).returned = some (rv, err) ∧
        ReportsLines AllMetrics results rv := by
  intro hall
  have hreport := (hall (collectBroadcastResult false
    [⟨ascii "a:1", [], []⟩, ⟨ascii "b:1", [ascii "1.6"], []⟩]) .connPollErr (by decide)).1
  have hlast := ((reports_iff (by decide)).1 ((broadcastEnded_returned ..).1 hreport)).1
  simp [SilentLast, collectBroadcastResult] at hlast

end Libmc.Golibmc
