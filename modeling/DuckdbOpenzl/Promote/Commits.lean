import DuckdbOpenzl.Library.Runs
import DuckdbOpenzl.Promote.Readback

/-!
# Commits between the analysis and the scan

The table may change at any time: between the queries of the bind, before a
scan, and between two executions of a prepared statement. Inserts and updates
leave its columns as they are, so every scan still runs casts that some earlier
state of the table asked for. A scan is fetched chunk by chunk, of the rows that
were committed when its query was sent, and whoever reads it may stop after any
of them.
-/

set_option autoImplicit false

namespace DuckdbOpenzl

open DecimalText

variable {β : Type}

/-! ## The system -/

/-- How far the statement has got. -/
inductive Session where
  | start
  | described (p : PromoteParams) (cols : List DescribedColumn)
  | analyzed (p : PromoteParams) (cols : List DescribedColumn) (verdict : List (Option LogicalType))
  | bound (f : BoundFunction)
  | failed (e : Exception)

/-- An execution of the bound statement. -/
structure PromoteScan (β : Type) where
  /-- What the next call works on, or what was thrown. -/
  global : Except Exception (OpenzlPromoteGlobalState β)
  /-- Every chunk that was fetched, the last one first. -/
  fetched : List (FetchedChunk β)

/-- `Fetch` fails by itself, or gives rows, which the select list may refuse. -/
def fetchedChunks (host : HostFunctions) (g : OpenzlPromoteGlobalState β) (reply : FetchReply) :
    List (FetchedChunk β) :=
  match reply with
  | .failed _ => []
  | .chunk count =>
      [⟨g.items, g.rows count, (openzlPromoteFunction host g reply).map Prod.fst⟩]

-- no call follows one that threw
def PromoteScan.fetch (host : HostFunctions) (reply : FetchReply) (scan : PromoteScan β) :
    PromoteScan β :=
  match scan.global with
  | .error _ => scan
  | .ok g =>
      { global := (openzlPromoteFunction host g reply).map Prod.snd
        fetched := fetchedChunks host g reply ++ scan.fetched }

structure PromoteState (β : Type) where
  table : Table β
  session : Session
  scans : List (PromoteScan β)

/-- The table is called `name`. -/
def PromoteState.database (name : String) (s : PromoteState β) : Database β := fun source ↦
  if source = name then some s.table else none

def PromoteState.openScan (host : HostFunctions) (name : String) (f : BoundFunction)
    (s : PromoteState β) : PromoteScan β where
  global := openzlPromoteInitGlobal host f.bindData (s.database name)
  fetched := []

/-- The chunks of all scans. -/
def PromoteState.chunks (s : PromoteState β) : List (FetchedChunk β) :=
  s.scans.flatMap PromoteScan.fetched

/-- What comes after one query of the bind. -/
def Session.after {α : Type} (result : Except Exception α) (next : α → Session) : Session :=
  match result with
  | .ok a => next a
  | .error e => .failed e

section Queries

variable (host : HostFunctions) (name : String) (input : PromoteInput)

def PromoteState.describe (s : PromoteState β) : Session :=
  .after (promoteParams input) fun p ↦
    .after (describePromote host p (s.database name)) fun cols ↦ .described p cols

def PromoteState.analyze (s : PromoteState β) (p : PromoteParams) (cols : List DescribedColumn) :
    Session :=
  .after (analyzePromote host p cols (s.database name)) fun verdict ↦ .analyzed p cols verdict

def PromoteState.schema (s : PromoteState β) (p : PromoteParams) (cols : List DescribedColumn)
    (verdict : List (Option LogicalType)) : Session :=
  .after
    (bindSchema host "openzl_promote" (promoteBindData p cols verdict) (s.database name)) .bound

/-- Commits, the three queries of the bind, and any number of scans of the bound statement, each
as far as it was fetched. -/
inductive PromoteStep : PromoteState β → PromoteState β → Prop where
  | commit {s : PromoteState β} (table : Table β) (schema : table.schema = s.table.schema) :
      PromoteStep s { s with table := table }
  | describe {s : PromoteState β} (session : s.session = .start) :
      PromoteStep s { s with session := s.describe host name input }
  | analyze {s : PromoteState β} {p : PromoteParams} {cols : List DescribedColumn}
      (session : s.session = .described p cols) :
      PromoteStep s { s with session := s.analyze host name p cols }
  | schema {s : PromoteState β} {p : PromoteParams} {cols : List DescribedColumn}
      {verdict : List (Option LogicalType)} (session : s.session = .analyzed p cols verdict) :
      PromoteStep s { s with session := s.schema host name p cols verdict }
  | openScan {s : PromoteState β} {f : BoundFunction} (session : s.session = .bound f) :
      PromoteStep s { s with scans := s.openScan host name f :: s.scans }
  | fetch {s : PromoteState β} {before after : List (PromoteScan β)} {scan : PromoteScan β}
      (reply : FetchReply) (scans : s.scans = before ++ scan :: after) :
      PromoteStep s { s with scans := before ++ scan.fetch host reply :: after }

end Queries

variable {host : HostFunctions} {t t₀ : Table β} {p : PromoteParams} {type : LogicalType}

/-! ## Runs -/

/-- What the bind has established so far, on tables with the columns of `t`. -/
def Session.Prepared (name : String) (t : Table β) : Session → Prop
  | .start | .failed _ => True
  | .described p cols => p.table = name ∧ cols = t.described
  | .analyzed p cols verdict => p.table = name ∧ cols = t.described ∧
      ∃ t₀ : Table β, t₀.schema = t.schema ∧ verdict = t₀.columns.map p.ownVerdict ∧
        ∀ c₀ ∈ t₀.columns, p.ownVerdict c₀ ≠ none → p.Compiles
  | .bound f => ∃ items, PreparedFor t items ∧ f.bindData = ⟨items, name⟩

structure PromoteScan.Prepared (host : HostFunctions) (scan : PromoteScan β) : Prop where
  global : ∀ g, scan.global = .ok g → PreparedFor g.table g.items
  fetched : ∀ chunk ∈ scan.fetched, chunk.Prepared host

structure PromoteState.Prepared (host : HostFunctions) (name : String) (s : PromoteState β) :
    Prop where
  session : s.session.Prepared name s.table
  scans : ∀ scan ∈ s.scans, scan.Prepared host

variable {name : String} {input : PromoteInput} {s s' : PromoteState β}
  {cols : List DescribedColumn}

theorem Table.described_of_schema (h : t₀.schema = t.schema) : t₀.described = t.described := by
  have hmap : ∀ t : Table β, t.described = t.schema.map fun column ↦ ⟨column.1, column.2.name⟩ := by
    intro t
    rw [Table.described, Table.schema, List.map_map]
    rfl
  rw [hmap, hmap, h]

theorem PreparedFor.of_schema {items : List SelectItem} (h : PreparedFor t items)
    (hschema : t₀.schema = t.schema) : PreparedFor t₀ items := by
  obtain ⟨p, t₁, ht₁, hitems⟩ := h
  exact ⟨p, t₁, ht₁.trans hschema.symm, hitems⟩

theorem Table.schema_slice (t : Table β) (first count : ℕ) :
    (t.slice first count).schema = t.schema := by
  unfold schema slice Column.slice
  simp only [List.map_map]
  apply List.map_congr_left
  intro c _
  simp only [Function.comp_apply, ColumnData.type_slice]

theorem Session.Prepared.of_schema {session : Session} (h : session.Prepared name t)
    (hschema : t₀.schema = t.schema) : session.Prepared name t₀ := by
  have hdescribed := Table.described_of_schema hschema
  cases session with
  | start => trivial
  | failed e => trivial
  | described p cols => exact ⟨h.1, h.2.trans hdescribed.symm⟩
  | analyzed p cols verdict =>
      obtain ⟨hname, hcols, t₁, ht₁, hverdict⟩ := h
      exact ⟨hname, hcols.trans hdescribed.symm, t₁, ht₁.trans hschema.symm, hverdict⟩
  | bound f =>
      obtain ⟨items, hitems, hdata⟩ := h
      exact ⟨items, hitems.of_schema hschema, hdata⟩

theorem Session.prepared_after {α : Type} {result : Except Exception α} {next : α → Session}
    (h : ∀ a, result = .ok a → (next a).Prepared name t) :
    (Session.after result next).Prepared name t := by
  cases result with
  | ok a => exact h a rfl
  | error e => trivial

theorem PromoteState.prepared_describe (s : PromoteState β) :
    (s.describe host name input).Prepared name s.table := by
  apply Session.prepared_after
  intro p _
  apply Session.prepared_after
  intro cols hcols
  have htable : s.database name p.table = some s.table ∧ p.table = name := by
    by_contra hnot
    have hnone : s.database name p.table = none := by
      unfold database at hnot ⊢
      split
      · rename_i h
        simp [h] at hnot
      · rfl
    rw [describePromote, DuckdbOpenzl.describe, hnone] at hcols
    cases hcols
  rw [describePromote_eq htable.1] at hcols
  exact ⟨htable.2, (Except.ok.inj hcols).symm⟩

theorem PromoteState.database_self (s : PromoteState β) : s.database name name = some s.table :=
  if_pos rfl

theorem PromoteState.prepared_analyze (h : s.session = .described p cols)
    (hs : s.session.Prepared name s.table) :
    (s.analyze host name p cols).Prepared name s.table := by
  rw [h] at hs
  obtain ⟨rfl, rfl⟩ := hs
  apply Session.prepared_after
  intro verdict hverdict
  obtain ⟨hcompiles, rfl⟩ := (analyzePromote_eq_ok_iff s.database_self).mp hverdict
  exact ⟨rfl, rfl, s.table, rfl, rfl, fun c hc ↦ PromoteParams.compiles_of_aggs hcompiles hc⟩

theorem bindData_of_bindSchema {function : String} {data : OpenzlPromoteBindData}
    {db : Database β} {f : BoundFunction} (h : bindSchema host function data db = .ok f) :
    f.bindData = data := by
  unfold bindSchema at h
  split at h
  · rw [← Except.ok.inj h]
  · cases h

theorem PromoteState.prepared_schema {verdict : List (Option LogicalType)}
    (h : s.session = .analyzed p cols verdict) (hs : s.session.Prepared name s.table) :
    (s.schema host name p cols verdict).Prepared name s.table := by
  rw [h] at hs
  obtain ⟨rfl, rfl, t₀, hschema, rfl, hcompiles⟩ := hs
  apply Session.prepared_after
  intro f hf
  refine ⟨_, ⟨p, t₀, hschema, rfl, hcompiles⟩, ?_⟩
  rw [bindData_of_bindSchema hf, ← Table.described_of_schema hschema, promoteBindData_own]

theorem openzlPromoteInitGlobal_eq_ok {items : List SelectItem} {source : String}
    {db : Database β} {g : OpenzlPromoteGlobalState β} (hdb : db source = some t)
    (h : openzlPromoteInitGlobal host ⟨items, source⟩ db = .ok g) : g = ⟨items, t, 0⟩ := by
  unfold openzlPromoteInitGlobal at h
  dsimp only at h
  rw [hdb] at h
  dsimp only at h
  split at h
  · exact (Except.ok.inj h).symm
  · cases h

theorem PromoteState.prepared_openScan {f : BoundFunction} (h : s.session = .bound f)
    (hs : s.session.Prepared name s.table) : (s.openScan host name f).Prepared host := by
  rw [h] at hs
  obtain ⟨items, hitems, hdata⟩ := hs
  refine ⟨?_, nofun⟩
  intro g hg
  rw [openScan, hdata] at hg
  rw [openzlPromoteInitGlobal_eq_ok s.database_self hg]
  exact hitems

/-- A chunk comes with the rows read for it, and the next call reads on in the same table. -/
theorem openzlPromoteFunction_cases (g : OpenzlPromoteGlobalState β) (reply : FetchReply) :
    (∃ e, openzlPromoteFunction host g reply = .error e ∧
        ∀ out, ∀ chunk ∈ fetchedChunks host g reply, chunk.result ≠ .ok out) ∨
      ∃ count columns, reply = .chunk count ∧ select host g.items (g.rows count) = .ok columns ∧
        openzlPromoteFunction host g reply =
          .ok (columns, { g with fetched := g.fetched + count }) := by
  cases reply with
  | failed message => exact .inl ⟨_, rfl, fun out chunk hchunk ↦ absurd hchunk List.not_mem_nil⟩
  | chunk count =>
      cases hselect : select host g.items (g.rows count) with
      | error e =>
          have hthrown : openzlPromoteFunction host g (.chunk count) =
              .error (.io ("openzl_promote: " ++ host.message e)) := by
            rw [openzlPromoteFunction, hselect]
          refine .inl ⟨_, hthrown, ?_⟩
          intro out chunk hchunk
          obtain rfl := List.mem_singleton.mp hchunk
          rw [hthrown]
          intro hok
          cases hok
      | ok columns =>
          refine .inr ⟨count, columns, rfl, hselect, ?_⟩
          rw [openzlPromoteFunction, hselect]

theorem prepared_fetchedChunks {g : OpenzlPromoteGlobalState β} (reply : FetchReply)
    (hg : PreparedFor g.table g.items) :
    ∀ chunk ∈ fetchedChunks host g reply, chunk.Prepared host := by
  cases reply with
  | failed message => exact fun chunk hchunk ↦ absurd hchunk List.not_mem_nil
  | chunk count =>
      intro chunk hchunk
      obtain rfl := List.mem_singleton.mp hchunk
      refine ⟨hg.of_schema (g.table.schema_slice g.fetched count), ?_⟩
      intro out
      dsimp only
      rw [openzlPromoteFunction]
      cases select host g.items (g.rows count) with
      | ok columns => simp only [Except.map, Except.ok.injEq]
      | error e =>
          constructor <;> intro hok <;> cases hok

theorem PromoteScan.fetch_of_error {scan : PromoteScan β} {e : Exception} (reply : FetchReply)
    (h : scan.global = .error e) : scan.fetch host reply = scan := by
  rw [fetch, h]

theorem PromoteScan.fetch_of_ok {scan : PromoteScan β} {g : OpenzlPromoteGlobalState β}
    (reply : FetchReply) (h : scan.global = .ok g) :
    scan.fetch host reply = ⟨(openzlPromoteFunction host g reply).map Prod.snd,
      fetchedChunks host g reply ++ scan.fetched⟩ := by
  rw [fetch, h]

theorem PromoteScan.Prepared.fetch {scan : PromoteScan β} (h : scan.Prepared host)
    (reply : FetchReply) : (scan.fetch host reply).Prepared host := by
  cases hglobal : scan.global with
  | error e => exact (fetch_of_error reply hglobal).symm ▸ h
  | ok g =>
      have hg := h.global g hglobal
      rw [fetch_of_ok reply hglobal]
      constructor
      · intro g' hg'
        rcases @openzlPromoteFunction_cases _ host g reply with
          ⟨e, hthrown, -⟩ | ⟨count, columns, -, -, hresult⟩
        · rw [hthrown] at hg'
          cases hg'
        · rw [hresult] at hg'
          obtain rfl := Except.ok.inj hg'
          exact hg
      · intro chunk hchunk
        rcases List.mem_append.mp hchunk with hnew | hold
        · exact prepared_fetchedChunks reply hg chunk hnew
        · exact h.fetched chunk hold

/-- Every step keeps what the bind has established. -/
theorem PromoteState.Prepared.step (hs : s.Prepared host name)
    (hstep : PromoteStep host name input s s') : s'.Prepared host name := by
  cases hstep with
  | commit table schema => exact ⟨hs.session.of_schema schema, hs.scans⟩
  | describe session => exact ⟨s.prepared_describe, hs.scans⟩
  | analyze session => exact ⟨prepared_analyze (s := s) session hs.session, hs.scans⟩
  | schema session => exact ⟨prepared_schema (s := s) session hs.session, hs.scans⟩
  | openScan session =>
      refine ⟨hs.session, ?_⟩
      intro scan hscan
      rcases List.mem_cons.mp hscan with rfl | hscan
      · exact prepared_openScan session hs.session
      · exact hs.scans scan hscan
  | @fetch before after scan reply scans =>
      have hall := hs.scans
      rw [scans] at hall
      refine ⟨hs.session, ?_⟩
      intro other hother
      rcases List.mem_append.mp hother with hbefore | hafter
      · exact hall other (List.mem_append_left _ hbefore)
      · rcases List.mem_cons.mp hafter with rfl | hafter
        · exact (hall scan (List.mem_append_right _ List.mem_cons_self)).fetch reply
        · exact hall other (List.mem_append_right _ (List.mem_cons_of_mem _ hafter))

/-- Before anything was asked. -/
def PromoteState.initial (table : Table β) : PromoteState β := ⟨table, .start, []⟩

theorem exists_bound_run (host : HostFunctions) {table : Table β} (hp : promoteParams input = .ok p)
    (hsum : p.decIntDigits + p.decScale ≤ 18) :
    ∃ f, Relation.ReflTransGen (PromoteStep host p.table input) (.initial table)
        ⟨table, .bound f, []⟩ ∧
      f.bindData = ⟨table.columns.map p.ownItem, p.table⟩ := by
  let s₀ : PromoteState β := .initial table
  have hdb : s₀.database p.table p.table = some table := s₀.database_self
  have hcompiles : ∀ a ∈ aggs p table.described, a.Compiles := by
    intro a ha
    obtain ⟨c, values, -, -, hmem⟩ := mem_aggs_iff.mp ha
    exact (PromoteParams.compiles_iff c.name).mpr (PromoteParams.compiles_of_sum_le hsum) a hmem
  obtain ⟨f, hbind, hdata, -, -⟩ := bindSchema_own (p := p) host "openzl_promote" hdb
  have hdescribe : s₀.describe host p.table input = .described p table.described := by
    rw [PromoteState.describe, hp]
    change Session.after (describePromote host p (s₀.database p.table)) _ = _
    rw [describePromote_eq hdb]
    rfl
  have hanalyze : s₀.analyze host p.table p table.described =
      .analyzed p table.described (table.columns.map p.ownVerdict) := by
    rw [PromoteState.analyze, (analyzePromote_eq_ok_iff hdb).mpr ⟨hcompiles, rfl⟩]
    rfl
  have hschema : s₀.schema host p.table p table.described (table.columns.map p.ownVerdict) =
      .bound f := by
    rw [PromoteState.schema, promoteBindData_own, hbind]
    rfl
  have hrun₁ : PromoteStep host p.table input s₀ ⟨table, .described p table.described, []⟩ :=
    hdescribe ▸ .describe rfl
  have hrun₂ : PromoteStep host p.table input ⟨table, .described p table.described, []⟩
      ⟨table, .analyzed p table.described (table.columns.map p.ownVerdict), []⟩ :=
    hanalyze ▸ .analyze rfl
  have hrun₃ : PromoteStep host p.table input
      ⟨table, .analyzed p table.described (table.columns.map p.ownVerdict), []⟩
      ⟨table, .bound f, []⟩ :=
    hschema ▸ .schema rfl
  exact ⟨f, ((Relation.ReflTransGen.single hrun₁).tail hrun₂).tail hrun₃, hdata⟩

theorem PromoteState.prepared_of_run {table : Table β}
    (hrun : Relation.ReflTransGen (PromoteStep host name input) (.initial table) s) :
    s.Prepared host name := by
  have hinitial : (PromoteState.initial table).Prepared host name := ⟨trivial, nofun⟩
  have hstep : ∀ s t : PromoteState β, s.Prepared host name → PromoteStep host name input s t →
      t.Prepared host name := fun s t hs ↦ hs.step
  exact Runs.invariant hstep hinitial hrun

theorem PromoteState.Prepared.chunks (hs : s.Prepared host name) :
    ∀ chunk ∈ s.chunks, chunk.Prepared host := by
  intro chunk hchunk
  obtain ⟨scan, hscan, hmem⟩ := List.mem_flatMap.mp hchunk
  exact (hs.scans scan hscan).fetched chunk hmem

/-! ## What the scans of a run give back -/

/-- The scan has failed, or everything that it has emitted converts back. -/
def PromoteScan.GivesBack (host : HostFunctions) (scan : PromoteScan β) : Prop :=
  (∃ e, scan.global = .error e) ∨ ∀ chunk ∈ scan.fetched, chunk.GivesBack host

/-- What was just fetched, by a scan that has not failed if anything was emitted. -/
def PromoteState.JustFetched (s : PromoteState β) (chunk : FetchedChunk β) : Prop :=
  ∃ scan ∈ s.scans, chunk ∈ scan.fetched ∧
    ∀ out, chunk.result = .ok out → ∀ e, scan.global ≠ .error e

theorem PromoteScan.fetched_fetch (reply : FetchReply) (scan : PromoteScan β) :
    scan.fetched ⊆ (scan.fetch host reply).fetched ∧
      ∀ chunk ∈ (scan.fetch host reply).fetched, chunk ∈ scan.fetched ∨
        ∀ out, chunk.result = .ok out → ∀ e, (scan.fetch host reply).global ≠ .error e := by
  cases hglobal : scan.global with
  | error e =>
      rw [fetch_of_error reply hglobal]
      exact ⟨fun _ h ↦ h, fun _ h ↦ .inl h⟩
  | ok g =>
      rw [fetch_of_ok reply hglobal]
      refine ⟨List.subset_append_right _ _, ?_⟩
      intro chunk hchunk
      rcases List.mem_append.mp hchunk with hnew | hold
      · right
        intro out hout e hthrown
        rcases @openzlPromoteFunction_cases _ host g reply with
          ⟨e', -, hnone⟩ | ⟨count, columns, -, -, hresult⟩
        · exact hnone out chunk hnew hout
        · rw [hresult] at hthrown
          cases hthrown
      · exact .inl hold

/-- Chunks stay fetched, and each was fetched by some step. -/
theorem PromoteStep.chunks (hstep : PromoteStep host name input s s') :
    s.chunks ⊆ s'.chunks ∧ ∀ chunk ∈ s'.chunks, chunk ∈ s.chunks ∨ s'.JustFetched chunk := by
  cases hstep with
  | commit | describe | analyze | schema => exact ⟨fun _ h ↦ h, fun _ h ↦ .inl h⟩
  | openScan session =>
      exact ⟨List.subset_append_right _ _, fun _ h ↦ .inl h⟩
  | @fetch before after scan reply scans =>
      obtain ⟨hkept, hfetched⟩ := @PromoteScan.fetched_fetch _ host reply scan
      simp only [PromoteState.chunks, scans, List.flatMap_append, List.flatMap_cons]
      constructor
      · intro chunk hchunk
        simp only [List.mem_append] at hchunk ⊢
        exact hchunk.imp_right (Or.imp_left fun h ↦ hkept h)
      · intro chunk hchunk
        simp only [List.mem_append] at hchunk ⊢
        rcases hchunk with hbefore | hscan | hafter
        · exact .inl (.inl hbefore)
        · rcases hfetched chunk hscan with hold | hnew
          · exact .inl (.inr (.inl hold))
          · exact .inr ⟨_, List.mem_append_right _ List.mem_cons_self, hscan, hnew⟩
        · exact .inl (.inr (.inr hafter))

theorem PromoteState.chunks_subset_of_run
    (hrun : Relation.ReflTransGen (PromoteStep host name input) s s') : s.chunks ⊆ s'.chunks := by
  induction hrun with
  | refl => exact fun _ h ↦ h
  | tail _ hstep ih => exact fun _ h ↦ hstep.chunks.1 (ih h)

/-- Before anything of a scan is followed by an error, it is all that the scan has given. -/
theorem PromoteState.exists_justFetched {table : Table β}
    (hrun : Relation.ReflTransGen (PromoteStep host name input) (.initial table) s)
    {chunk : FetchedChunk β} (hchunk : chunk ∈ s.chunks) :
    ∃ t, Relation.ReflTransGen (PromoteStep host name input) (.initial table) t ∧
      Relation.ReflTransGen (PromoteStep host name input) t s ∧ t.JustFetched chunk := by
  induction hrun with
  | refl => cases hchunk
  | tail hrun hstep ih =>
      rcases hstep.chunks.2 chunk hchunk with hold | hnew
      · obtain ⟨t, hbefore, hafter, hfetched⟩ := ih hold
        exact ⟨t, hbefore, hafter.tail hstep, hfetched⟩
      · exact ⟨_, hrun.tail hstep, .refl, hnew⟩

/-- At every moment of a run of commits, queries and fetches, every scan has failed or gives back
what it read, exactly when every chunk that the run fetches is safe. -/
theorem scans_give_back_iff (hhost : host.Documented) {table : Table β}
    (hrun : Relation.ReflTransGen (PromoteStep host name input) (.initial table) s) :
    (∀ t, Relation.ReflTransGen (PromoteStep host name input) (.initial table) t →
        Relation.ReflTransGen (PromoteStep host name input) t s →
        ∀ scan ∈ t.scans, scan.GivesBack host) ↔
      ∀ chunk ∈ s.chunks, chunk.Safe host := by
  have hprepared := (PromoteState.prepared_of_run hrun).chunks
  constructor
  · intro hback chunk hchunk
    rw [← chunk.givesBack_iff hhost (hprepared chunk hchunk)]
    intro out hout
    obtain ⟨t, hbefore, hafter, scan, hscan, hmem, hnot⟩ :=
      PromoteState.exists_justFetched hrun hchunk
    rcases hback t hbefore hafter scan hscan with ⟨e, he⟩ | hall
    · exact absurd he (hnot out hout e)
    · exact hall chunk hmem out hout
  · intro hsafe t _ hafter scan hscan
    right
    intro chunk hmem
    have hchunk : chunk ∈ s.chunks :=
      PromoteState.chunks_subset_of_run hafter (List.mem_flatMap.mpr ⟨scan, hscan, hmem⟩)
    exact (chunk.givesBack_iff hhost (hprepared chunk hchunk)).mpr (hsafe chunk hchunk)

/-! ## A table of texts -/

/-- A table with one VARCHAR column. -/
def texts (xs : List String) : Table Unit where
  columns := [⟨"v", .varchar (xs.map fun x ↦ some x.toList)⟩]
  rows := xs.length
  rows_eq := by simp [ColumnData.rows]
  names_nodup := List.nodup_singleton _

def defaultParams : PromoteParams where
  table := "t"
  maxIntDigits := 18
  decIntDigits := 12
  decScale := 6
  promoteDecimal := true
  fixedWidth := false
  maxIntDigits_range := fixedWidthParams.maxIntDigits_range
  decimal_range := fixedWidthParams.decimal_range

/-- The first row of the texts as a chunk, cast to BIGINT. -/
def firstText (x : String) (xs : List String) (u : ℤ) : FetchedChunk Unit where
  items := [.castAs "v" .bigint]
  rows := (texts (x :: xs)).slice 0 1
  result := .ok [⟨"v", .bigint [some u]⟩]

/-- The column holds `5` when it is analyzed and `x :: xs` when it is scanned, and whoever reads the
scan stops after one row. -/
theorem exists_fetch_after_commit {x : String} {u : ℤ} (xs : List String)
    (hx : HostFunctions.plain.toBigint x.toList = some u) :
    ∃ s : PromoteState Unit,
      Relation.ReflTransGen (PromoteStep .plain "t" { table := some "t" })
        (.initial (texts ["5"])) s ∧
      s.scans = [⟨.ok ⟨[.castAs "v" .bigint], texts (x :: xs), 1⟩, [firstText x xs u]⟩] := by
  have hp : promoteParams { table := some "t" } = .ok defaultParams := rfl
  obtain ⟨f, hrun, hdata⟩ := @exists_bound_run Unit _ _ .plain (texts ["5"]) hp (by decide)
  have hitems : (texts ["5"]).columns.map defaultParams.ownItem = [.castAs "v" .bigint] := rfl
  rw [hitems] at hdata
  let s : PromoteState Unit := ⟨texts (x :: xs), .bound f, []⟩
  have hcommit : PromoteStep .plain "t" { table := some "t" } ⟨texts ["5"], .bound f, []⟩ s :=
    .commit (texts (x :: xs)) rfl
  let g : OpenzlPromoteGlobalState Unit := ⟨[.castAs "v" .bigint], texts (x :: xs), 0⟩
  have hglobal : s.openScan .plain "t" f = ⟨.ok g, []⟩ := by
    rw [PromoteState.openScan, hdata]
    rfl
  have hopen : PromoteStep .plain "t" { table := some "t" } s { s with scans := [⟨.ok g, []⟩] } :=
    hglobal ▸ .openScan rfl
  have hselect : select .plain g.items (g.rows 1) = .ok [⟨"v", .bigint [some u]⟩] := by
    have hcast : castTexts HostFunctions.plain.toBigint [some x.toList] = some [some u] := by
      rw [castTexts, List.mapM_cons, castValue, hx]
      rfl
    have hcolumn : castColumn .plain (⟨"v", .varchar [some x.toList]⟩ : Column Unit) .bigint =
        .ok ⟨"v", .bigint [some u]⟩ := by
      simp only [castColumn, hcast]
    exact MapM.except_iff.mpr (.cons hcolumn .nil)
  have hfetched : PromoteScan.fetch .plain (.chunk 1) ⟨.ok g, []⟩ =
      ⟨.ok { g with fetched := 1 }, [firstText x xs u]⟩ := by
    have hresult : openzlPromoteFunction .plain g (.chunk 1) =
        .ok ([⟨"v", .bigint [some u]⟩], { g with fetched := 1 }) := by
      simp only [openzlPromoteFunction, hselect]
      rfl
    simp only [PromoteScan.fetch, fetchedChunks, hresult]
    rfl
  have hfetch := @PromoteStep.fetch Unit .plain "t" { table := some "t" }
    { s with scans := [⟨.ok g, []⟩] } [] [] ⟨.ok g, []⟩ (.chunk 1) rfl
  rw [hfetched] at hfetch
  exact ⟨_, ((hrun.tail hcommit).tail hopen).tail hfetch, rfl⟩

/-- After an update to `12` and `abc`, a reader that stops at the first row has got `12`. -/
theorem scans_give_back_12 : ∃ s : PromoteState Unit,
    Relation.ReflTransGen (PromoteStep .plain "t" { table := some "t" })
      (.initial (texts ["5"])) s ∧ s.chunks = [firstText "12" ["abc"] 12] ∧
    ∀ t, Relation.ReflTransGen (PromoteStep .plain "t" { table := some "t" })
        (.initial (texts ["5"])) t →
      Relation.ReflTransGen (PromoteStep .plain "t" { table := some "t" }) t s →
      ∀ scan ∈ t.scans, scan.GivesBack .plain := by
  obtain ⟨s, hrun, hscans⟩ := @exists_fetch_after_commit "12" 12 ["abc"] (by decide +kernel)
  have hchunks : s.chunks = [firstText "12" ["abc"] 12] := by
    rw [PromoteState.chunks, hscans]
    rfl
  refine ⟨s, hrun, hchunks, ?_⟩
  rw [scans_give_back_iff HostFunctions.plain_documented hrun, hchunks]
  intro chunk hchunk
  obtain rfl := List.mem_singleton.mp hchunk
  right
  rintro type x ⟨item, hitem, c, values, hcast, hcolumn, hdata, hx⟩
  obtain rfl := List.mem_singleton.mp hitem
  obtain ⟨hname, rfl⟩ : "v" = c.name ∧ LogicalType.bigint = type := by simpa using hcast
  rw [← hname] at hcolumn
  obtain rfl : ⟨"v", .varchar [some "12".toList]⟩ = c := Option.some.inj hcolumn
  obtain rfl : [some "12".toList] = values := ColumnData.varchar.inj hdata
  obtain rfl : x = "12".toList := Option.some.inj (List.mem_singleton.mp hx)
  have hcanonical : IsCanonicalInt "12".toList := by decide
  exact hcanonical

/-- After an update to `007` and `abc`, a reader that stops at the first row has got `7`, and no
error. -/
theorem altered_value_after_commit :
    ∃ s : PromoteState Unit,
      Relation.ReflTransGen (PromoteStep .plain "t" { table := some "t" })
        (.initial (texts ["5"])) s ∧
      ∃ scan ∈ s.scans, ¬scan.GivesBack .plain := by
  obtain ⟨s, hrun, hscans⟩ := @exists_fetch_after_commit "007" 7 ["abc"] (by decide +kernel)
  refine ⟨s, hrun, _, hscans ▸ List.mem_singleton_self _, ?_⟩
  rintro (⟨e, he⟩ | hall)
  · cases he
  · have hback := hall _ (List.mem_singleton_self _) _ rfl
    obtain ⟨⟨-, hvalues⟩, -⟩ := List.forall₂_cons.mp hback
    have hvalue : List.Forall₂ (Option.Rel (GivesBack .plain .bigint)) [some "007".toList]
        [some 7] := hvalues
    obtain ⟨⟨htext⟩, -⟩ := List.forall₂_cons.mp hvalue
    have hdiffer : intText 7 ≠ "007".toList := by decide
    exact hdiffer htext

end DuckdbOpenzl
