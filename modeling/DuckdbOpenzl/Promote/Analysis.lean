import DuckdbOpenzl.Promote.Patterns

/-!
# The analysis row gives every column its own verdict

The aggregates of all VARCHAR columns come back as one flat row. Block `k` of
it belongs to the `k`-th VARCHAR column, so what is decided from that block is
what the column's own aggregates decide.
-/

set_option autoImplicit false

namespace DuckdbOpenzl

open DecimalText TextPattern FlatRows

variable {β : Type} {p : PromoteParams} {r : Table β} {c : Column β}
  {values : List (Option Text)}

/-! ## One column -/

/-- An aggregate of a VARCHAR column, when its pattern compiles. -/
def Aggregate.cellOf (values : List (Option Text)) : Aggregate → Cell
  | .count _ => .bigint (values.countP Option.isSome)
  | .allMatch _ pattern => boolAndMatch pattern values
  | .minLength _ => (lengths values).min?.elim .null fun n ↦ .bigint n
  | .maxLength _ => (lengths values).max?.elim .null fun n ↦ .bigint n

def Aggregate.Compiles : Aggregate → Prop
  | .allMatch _ pattern => pattern.maxRepeat ≤ maxPatternRepeat
  | _ => True

namespace PromoteParams

/-- The cells of the aggregates of one column. -/
def ownCell (p : PromoteParams) (name : String) (values : List (Option Text)) (j : ℕ) : Cell :=
  ((p.aggregatesOf name).map (Aggregate.cellOf values))[j]?.getD .null

/-- The verdict on a column from its own aggregates. -/
def ownVerdict (p : PromoteParams) (c : Column β) : Option LogicalType :=
  match c.data with
  | .varchar values => p.verdictOf (p.ownCell c.name values)
  | _ => none

theorem length_aggregatesOf (name : String) : (p.aggregatesOf name).length = p.stride := by
  cases h : p.fixedWidth <;> simp [aggregatesOf, stride, h]

theorem verdictOf_congr {cell cell' : ℕ → Cell} (h : ∀ j < p.stride, cell j = cell' j) :
    p.verdictOf cell = p.verdictOf cell' := by
  cases hfixed : p.fixedWidth with
  | false =>
      have hstride : p.stride = 3 := by simp [stride, hfixed]
      simp [verdictOf, fixedWidthOf, hfixed, h 0 (by omega), h 1 (by omega), h 2 (by omega)]
  | true =>
      have hstride : p.stride = 6 := by simp [stride, hfixed]
      simp [verdictOf, fixedWidthOf, hfixed, h 0 (by omega), h 1 (by omega), h 2 (by omega),
        h 3 (by omega), h 4 (by omega), h 5 (by omega)]

end PromoteParams

/-- Every text of a column that is not NULL. -/
def EveryText (P : Text → Prop) (values : List (Option Text)) : Prop := ∀ x, some x ∈ values → P x

theorem isTrue_boolAndMatch {pattern : Pattern} (h : (boolAndMatch pattern values).isTrue = true) :
    EveryText (fun x ↦ pattern.fullMatch x = true) values := by
  intro x hx
  unfold boolAndMatch at h
  split at h
  · cases h
  · exact List.all_eq_true.mp h _ hx

theorem mem_lengths {x : Text} (hx : some x ∈ values) : x.length ∈ lengths values :=
  List.mem_filterMap.mpr ⟨some x, hx, rfl⟩

theorem int?_elim {o : Option ℕ} {i : ℤ} (h : (o.elim Cell.null fun n ↦ .bigint n).int? = some i) :
    ∃ n : ℕ, o = some n ∧ (n : ℤ) = i := by
  cases o with
  | none => cases h
  | some n => exact ⟨n, rfl, Option.some.inj h⟩

theorem length_of_min_max {n : ℕ} (hmin : (lengths values).min? = some n)
    (hmax : (lengths values).max? = some n) : EveryText (fun x ↦ x.length = n) values := by
  intro x hx
  have hmem := mem_lengths hx
  apply Nat.le_antisymm
  · exact (List.max?_eq_some_iff.mp hmax).2 _ hmem
  · exact (List.min?_eq_some_iff.mp hmin).2 _ hmem

/-- What each verdict was given for. -/
theorem PromoteParams.ownVerdict_cases {type : LogicalType} (hdata : c.data = .varchar values)
    (h : p.ownVerdict c = some type) :
    (type = .bigint ∧ EveryText (fun x ↦ p.intRe.fullMatch x = true) values) ∨
    (∃ width, type = .decimal width 0 ∧ p.fixedWidth = true ∧ 2 ≤ width ∧ width ≤ 18 ∧
      EveryText (fun x ↦ IsDigits x ∧ x.length = width) values) ∨
    (type = p.decType ∧ EveryText (fun x ↦ p.decRe.fullMatch x = true) values) := by
  rw [ownVerdict, hdata] at h
  dsimp only at h
  unfold verdictOf at h
  split at h
  · cases h
  split at h
  · rename_i hint
    exact .inl ⟨(Option.some.inj h).symm, isTrue_boolAndMatch hint⟩
  split at h
  · rename_i width hwidth
    refine .inr (.inl ⟨width, (Option.some.inj h).symm, ?_⟩)
    unfold fixedWidthOf at hwidth
    split at hwidth
    · rename_i hfixed
      split at hwidth
      · rename_i minLen maxLen hmin hmax
        split at hwidth
        · rename_i hcond
          obtain ⟨hdigits, rfl, hlo, hhi⟩ := hcond
          obtain rfl := Option.some.inj hwidth
          simp only [ownCell, aggregatesOf, hfixed, if_true, List.cons_append, List.nil_append,
            List.map_cons, List.map_nil, List.getElem?_cons_succ, List.getElem?_cons_zero,
            Option.getD_some, Aggregate.cellOf] at hmin hmax hdigits
          obtain ⟨n, hn, rfl⟩ := int?_elim hmin
          obtain ⟨m, hm, hnm⟩ := int?_elim hmax
          obtain rfl : m = n := by exact_mod_cast hnm
          refine ⟨hfixed, by omega, by omega, ?_⟩
          intro x hx
          refine ⟨(fullMatch_digitsRe.mp (isTrue_boolAndMatch hdigits x hx)).2, ?_⟩
          rw [Int.toNat_natCast]
          exact length_of_min_max hn hm x hx
        · cases hwidth
      · cases hwidth
    · cases hwidth
  · split at h
    · rename_i hdec
      exact .inr (.inr ⟨(Option.some.inj h).symm, isTrue_boolAndMatch hdec.2⟩)
    · cases h

theorem PromoteParams.ownVerdict_of_count_eq_zero (h : c.data.count = 0) :
    p.ownVerdict c = none := by
  unfold ownVerdict
  split
  · rename_i values hdata
    rw [hdata] at h
    have hcell : (p.ownCell c.name values 0).int? = some 0 := by
      have hzero : ((values.countP Option.isSome : ℕ) : ℤ) = 0 := by exact_mod_cast h
      simp [ownCell, aggregatesOf, Aggregate.cellOf, hzero, Cell.int?]
    unfold verdictOf
    rw [if_pos (.inr hcell)]
  · rfl

/-! ## Reading the row -/

theorem Table.column?_of_mem (hc : c ∈ r.columns) : r.column? c.name = some c := by
  have hname : (r.columns.map Column.name).Nodup := r.names_nodup
  unfold Table.column?
  generalize r.columns = cols at hc hname
  induction cols with
  | nil => cases hc
  | cons d cols ih =>
      rw [List.map_cons, List.nodup_cons] at hname
      rcases List.mem_cons.mp hc with rfl | hc
      · simp
      · have hne : d.name ≠ c.name := fun h ↦ hname.1 (h ▸ List.mem_map_of_mem hc)
        rw [List.find?_cons_of_neg (by simpa using hne)]
        exact ih hc hname.2

theorem Aggregate.eval_eq_ok_iff {a : Aggregate} {cell : Cell} (hc : c ∈ r.columns)
    (hdata : c.data = .varchar values) (ha : a.name = c.name) :
    a.eval r = .ok cell ↔ a.Compiles ∧ cell = a.cellOf values := by
  unfold Aggregate.eval
  rw [ha, Table.column?_of_mem hc]
  cases a with
  | count name => simp [hdata, cellOf, Compiles, ColumnData.count, eq_comm]
  | minLength name => simp [hdata, cellOf, Compiles, eq_comm]
  | maxLength name => simp [hdata, cellOf, Compiles, eq_comm]
  | allMatch name pattern =>
      simp only [hdata, Compiles, cellOf]
      split
      · rename_i h
        simp [h, eq_comm]
      · rename_i h
        simp [h]

theorem LogicalType.name_eq_varchar_iff (type : LogicalType) :
    type.name = "VARCHAR" ↔ type = .varchar := by
  cases type with
  | varchar => simp [LogicalType.name]
  | bigint => simp [LogicalType.name]
  | decimal width scale =>
      refine ⟨fun h ↦ ?_, nofun⟩
      have hhead := congrArg (fun s : String ↦ s.toList.head?) h
      simp [LogicalType.name] at hhead
  | other type => simp [LogicalType.name, type.notVarchar]

theorem ColumnData.type_eq_varchar_iff {data : ColumnData β} :
    data.type = .varchar ↔ ∃ values, data = .varchar values := by
  cases data <;> simp [ColumnData.type]

/-- The columns of a relation as DESCRIBE reports them. -/
def Table.described (r : Table β) : List DescribedColumn :=
  r.columns.map fun c ↦ ⟨c.name, c.data.type.name⟩

theorem mem_aggCol_iff {i : ℕ} : i ∈ aggCol r.described ↔
    ∃ c values, r.columns[i]? = some c ∧ c.data = .varchar values := by
  rw [aggCol, List.mem_filter, List.mem_range, Option.any_eq_true]
  simp only [Table.described, List.length_map, List.getElem?_map, Option.map_eq_some_iff,
    DescribedColumn.isVarchar]
  constructor
  · rintro ⟨-, d, ⟨c, hc, rfl⟩, hd⟩
    have htype := (c.data.type.name_eq_varchar_iff).mp (beq_iff_eq.mp hd)
    obtain ⟨values, hdata⟩ := ColumnData.type_eq_varchar_iff.mp htype
    exact ⟨c, values, hc, hdata⟩
  · rintro ⟨c, values, hc, hdata⟩
    refine ⟨(List.getElem?_eq_some_iff.mp hc).1, _, ⟨c, hc, rfl⟩, ?_⟩
    rw [hdata]
    rfl

theorem nodup_aggCol (cols : List DescribedColumn) : (aggCol cols).Nodup :=
  List.nodup_range.filter _

theorem mem_aggs_iff {a : Aggregate} : a ∈ aggs p r.described ↔
    ∃ c values, c ∈ r.columns ∧ c.data = .varchar values ∧ a ∈ p.aggregatesOf c.name := by
  rw [aggs, List.mem_flatMap]
  constructor
  · rintro ⟨i, hi, ha⟩
    obtain ⟨c, values, hc, hdata⟩ := mem_aggCol_iff.mp hi
    refine ⟨c, values, List.mem_of_getElem? hc, hdata, ?_⟩
    simpa [Table.described, hc] using ha
  · rintro ⟨c, values, hc, hdata, ha⟩
    obtain ⟨i, hi⟩ := List.mem_iff_getElem?.mp hc
    refine ⟨i, mem_aggCol_iff.mpr ⟨c, values, hi, hdata⟩, ?_⟩
    simpa [Table.described, hi] using ha

theorem PromoteParams.name_of_mem_aggregatesOf {name : String} {a : Aggregate}
    (h : a ∈ p.aggregatesOf name) : a.name = name := by
  have hall : ∀ a ∈ p.aggregatesOf name, a.name = name := by
    cases hfixed : p.fixedWidth <;> simp [aggregatesOf, hfixed, Aggregate.name]
  exact hall a h

/-! ## The analysis -/

/-- Both patterns are within what the host accepts. -/
def PromoteParams.Compiles (p : PromoteParams) : Prop :=
  p.intRe.maxRepeat ≤ maxPatternRepeat ∧ p.decRe.maxRepeat ≤ maxPatternRepeat

theorem PromoteParams.compiles_iff (name : String) :
    (∀ a ∈ p.aggregatesOf name, a.Compiles) ↔ p.Compiles := by
  have hdigits : digitsRe.maxRepeat ≤ maxPatternRepeat := by decide
  cases hfixed : p.fixedWidth <;>
    simp [aggregatesOf, hfixed, Aggregate.Compiles, Compiles, hdigits]

/-- The cell of an aggregate over some VARCHAR column of the relation. -/
def Table.cellOf (r : Table β) (a : Aggregate) : Cell :=
  match r.column? a.name with
  | some ⟨_, .varchar values⟩ => a.cellOf values
  | _ => .null

theorem Table.cellOf_eq {a : Aggregate} (hc : c ∈ r.columns) (hdata : c.data = .varchar values)
    (ha : a.name = c.name) : r.cellOf a = a.cellOf values := by
  obtain ⟨name, data⟩ := c
  obtain rfl : data = .varchar values := hdata
  rw [cellOf, ha, Table.column?_of_mem hc]

theorem aggregate_eq_ok_iff {db : Database β} {stats : List Cell} (hdb : db p.table = some r) :
    aggregate (aggs p r.described) p.table db = .ok stats ↔
      (∀ a ∈ aggs p r.described, a.Compiles) ∧ stats = (aggs p r.described).map r.cellOf := by
  rw [aggregate, hdb]
  refine MapM.except_iff.trans ?_
  have heval : ∀ a ∈ aggs p r.described, ∀ cell,
      a.eval r = .ok cell ↔ a.Compiles ∧ cell = r.cellOf a := by
    intro a ha cell
    obtain ⟨c, values, hc, hdata, hmem⟩ := mem_aggs_iff.mp ha
    have hname := PromoteParams.name_of_mem_aggregatesOf hmem
    rw [Aggregate.eval_eq_ok_iff hc hdata hname, Table.cellOf_eq hc hdata hname]
  constructor
  · intro h
    refine ⟨?_, MapM.eq_map_of_forall₂ h fun a ha cell hcell ↦ ((heval a ha cell).mp hcell).2⟩
    intro a ha
    obtain ⟨cell, -, hcell⟩ := MapM.mem_of_forall₂ h ha
    exact ((heval a ha cell).mp hcell).1
  · rintro ⟨hcompiles, rfl⟩
    rw [List.forall₂_map_right_iff, List.forall₂_same]
    intro a ha
    exact (heval a ha _).mpr ⟨hcompiles a ha, rfl⟩

theorem verdictAt_eq {i k : ℕ} (hk : (aggCol r.described)[k]? = some i)
    (hi : r.columns[i]? = some c) (hdata : c.data = .varchar values) :
    verdictAt p ((aggs p r.described).map r.cellOf) k = p.ownVerdict c := by
  have hc : c ∈ r.columns := List.mem_of_getElem? hi
  rw [PromoteParams.ownVerdict, hdata, verdictAt]
  apply PromoteParams.verdictOf_congr
  intro j hj
  have hblocks : ∀ i ∈ aggCol r.described,
      ((r.described[i]?.map fun c ↦ p.aggregatesOf c.name).getD []).length = p.stride := by
    intro i hi
    obtain ⟨d, -, hd, -⟩ := mem_aggCol_iff.mp hi
    simp [Table.described, hd, PromoteParams.length_aggregatesOf]
  have hblock : (r.described[i]?.map fun c ↦ p.aggregatesOf c.name).getD [] =
      p.aggregatesOf c.name := by
    simp [Table.described, hi]
  have hcells : (p.aggregatesOf c.name).map r.cellOf =
      (p.aggregatesOf c.name).map (Aggregate.cellOf values) := by
    apply List.map_congr_left
    intro a ha
    exact Table.cellOf_eq hc hdata (PromoteParams.name_of_mem_aggregatesOf ha)
  rw [PromoteParams.ownCell, ← hcells, List.getElem?_map, List.getElem?_map, aggs,
    getElem?_flatMap hblocks hj, hk, Option.bind_some, hblock]

theorem scatter_verdicts_eq :
    scatter (List.replicate r.described.length none) ((aggCol r.described).zipIdx.map fun ik ↦
        (ik.1, verdictAt p ((aggs p r.described).map r.cellOf) ik.2)) =
      r.columns.map p.ownVerdict := by
  have hindices : (((aggCol r.described).zipIdx.map fun ik ↦
      (ik.1, verdictAt p ((aggs p r.described).map r.cellOf) ik.2)).map Prod.fst) =
      aggCol r.described := by
    rw [List.map_map]
    exact List.zipIdx_map_fst 0 _
  have hlen : r.described.length = r.columns.length := List.length_map _
  apply List.ext_getElem?
  intro i
  rw [List.getElem?_map]
  cases hi : r.columns[i]? with
  | none =>
      have hge := List.getElem?_eq_none_iff.mp hi
      rw [List.getElem?_eq_none_iff.mpr]
      · rfl
      · rw [length_scatter, List.length_replicate, hlen]
        exact hge
  | some c =>
      have hlt : i < r.columns.length := (List.getElem?_eq_some_iff.mp hi).1
      by_cases hmem : i ∈ aggCol r.described
      · obtain ⟨d, values, hd, hdata⟩ := mem_aggCol_iff.mp hmem
        obtain rfl : c = d := Option.some.inj (hi.symm.trans hd)
        obtain ⟨k, hk⟩ := List.mem_iff_getElem?.mp hmem
        rw [Option.map_some, ← verdictAt_eq hk hi hdata]
        apply getElem?_scatter_of_mem
        · rw [hindices]
          exact nodup_aggCol _
        · exact List.mem_map.mpr ⟨(i, k), List.mk_mem_zipIdx_iff_getElem?.mpr hk, rfl⟩
        · rw [List.length_replicate, hlen]
          exact hlt
      · rw [getElem?_scatter_of_notMem (by rwa [hindices]), List.getElem?_replicate,
          if_pos (by rw [hlen]; exact hlt), Option.map_some]
        have hnone : p.ownVerdict c = none := by
          unfold PromoteParams.ownVerdict
          split
          · rename_i values hdata
            exact absurd (mem_aggCol_iff.mpr ⟨c, values, hi, hdata⟩) hmem
          · rfl
        rw [hnone]

/-- The analysis returns the columns' own verdicts; it fails only on a pattern that does not
compile. -/
theorem analyzePromote_eq_ok_iff {host : HostFunctions} {db : Database β}
    {verdict : List (Option LogicalType)} (hdb : db p.table = some r) :
    analyzePromote host p r.described db = .ok verdict ↔
      (∀ a ∈ aggs p r.described, a.Compiles) ∧ verdict = r.columns.map p.ownVerdict := by
  rw [← scatter_verdicts_eq (p := p) (r := r)]
  unfold analyzePromote
  dsimp only
  split
  · rename_i hempty
    have hcol : aggCol r.described = [] := by
      apply List.eq_nil_iff_forall_not_mem.mpr
      intro i hi
      obtain ⟨c, values, hc, hdata⟩ := mem_aggCol_iff.mp hi
      have hmem : Aggregate.count c.name ∈ aggs p r.described :=
        mem_aggs_iff.mpr ⟨c, values, List.mem_of_getElem? hc, hdata, by
          simp [PromoteParams.aggregatesOf]⟩
      rw [hempty] at hmem
      cases hmem
    rw [hempty, hcol]
    simp [scatter, eq_comm]
  · cases hagg : aggregate (aggs p r.described) p.table db with
    | ok stats =>
        obtain ⟨hcompiles, rfl⟩ := (aggregate_eq_ok_iff hdb).mp hagg
        simp only [Except.ok.injEq]
        exact ⟨fun h ↦ ⟨hcompiles, h.symm⟩, fun h ↦ h.2.symm⟩
    | error e =>
        refine ⟨fun h ↦ (by cases h), fun h ↦ ?_⟩
        rw [(aggregate_eq_ok_iff hdb).mpr ⟨h.1, rfl⟩] at hagg
        cases hagg

end DuckdbOpenzl
