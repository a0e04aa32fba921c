import DuckdbOpenzl.DucklakePack.Pack
import DuckdbOpenzl.Library.DecimalText
import DuckdbOpenzl.Library.SqlForm

/-!
# The statements of the packer

Every call of the command line shell gets its settings and one statement as
text, with paths and column names between quotes. The text reads back as what
the statement was made of, whatever the files and columns are called.
-/

set_option autoImplicit false

namespace DuckdbOpenzl

namespace DucklakePack

open SqlText DecimalText

/-! ## The texts -/

def sq (s : String) : String :=
  "'" ++ String.ofList (s.toList.flatMap fun c ↦ if c = '\'' then ['\'', '\''] else [c]) ++ "'"

structure Duck where
  ext : String
  memory : String
  threads : ℤ

def Duck.pre (duck : Duck) : String :=
  "LOAD " ++ sq duck.ext ++ "; SET memory_limit=" ++ sq duck.memory ++ "; SET threads=" ++
    toString duck.threads ++ "; SET openzl_max_compress_bytes=8000000000; "

/-- What is made into a text with values of the run in it. -/
inductive Statement where
  | fieldIds (path : String)
  | fingerprint (path : String)
  | copy (src zl : String) (ids : List (String × ℤ))
  | decompress (zl tmpPath : String)
  | repoint (metaPath newPath : String) (logical footer id : ℤ)

/-- `", ".join(texts)` -/
def join : List String → String
  | [] => ""
  | [text] => text
  | text :: next :: rest => text ++ ", " ++ join (next :: rest)

/-- `fid_sql` -/
def fidSql (ids : List (String × ℤ)) : String :=
  "\x7b" ++ join (ids.map fun entry ↦ sq entry.1 ++ ": " ++ toString entry.2) ++ "\x7d"

def Statement.text : Statement → String
  | .fieldIds path =>
      "SELECT name, field_id, num_children FROM parquet_schema(" ++ sq path ++
        ") WHERE name <> 'duckdb_schema';"
  | .fingerprint path =>
      "SELECT count(*), coalesce(sum(hash(t)::HUGEINT), 0) FROM " ++
        "(SELECT * FROM read_parquet(" ++ sq path ++ ", file_row_number = true)) t;"
  | .copy src zl ids =>
      "COPY (SELECT * FROM read_parquet(" ++ sq src ++ ", file_row_number = false)) TO " ++ sq zl ++
        " " ++ "(FORMAT OPENZL, FIELD_IDS " ++ fidSql ids ++ ", CHUNK_SIZE_BYTES 0);"
  | .decompress zl tmpPath => "SELECT openzl_decompress(" ++ sq zl ++ ", " ++ sq tmpPath ++ ");"
  | .repoint metaPath newPath logical footer id =>
      "ATTACH " ++ sq metaPath ++ " AS meta;" ++ " " ++
        "UPDATE meta.ducklake_data_file SET path = " ++ sq newPath ++
        ", path_is_relative = false, " ++ "file_size_bytes = " ++ toString logical ++
        ", footer_size = " ++ toString footer ++ " WHERE data_file_id = " ++ toString id ++ ";"

/-! ## Their forms -/

section Forms

open Form

/-- `Duck.pre` -/
def preForm : Form Duck :=
  let load := (quoted .literal false).before (fixed "LOAD ") (by decide +kernel)
  let memory := (quoted .literal false).before (fixed "; SET memory_limit=") (by decide +kernel)
  let threads := (((int false).before (fixed "; SET threads=") (by decide +kernel)).after
    (fixed "; SET openzl_max_compress_bytes") (by decide +kernel)).after
    (fixed "=8000000000; ") (by decide +kernel)
  (load.seq (memory.seq threads (by decide +kernel)) (by decide +kernel)).map
    (fun x ↦ ⟨x.1, x.2.1, x.2.2⟩) (fun duck ↦ (duck.ext, duck.memory, duck.threads)) fun _ ↦ rfl

def fieldIdsForm : Form String :=
  (((quoted .literal false).before
    (fixed "num_children FROM parquet_schema(") (by decide +kernel)).before
    (fixed "SELECT name, field_id, ") (by decide +kernel)).after
    (fixed ") WHERE name <> 'duckdb_schema';") (by decide +kernel)

def fingerprintForm : Form String :=
  ((((quoted .literal false).before
    (fixed "(SELECT * FROM read_parquet(") (by decide +kernel)).before
    (fixed "coalesce(sum(hash(t)::HUGEINT), 0) FROM ") (by decide +kernel)).before
    (fixed "SELECT count(*), ") (by decide +kernel)).after
    (fixed ", file_row_number = true)) t;") (by decide +kernel)

/-- `fid_sql` -/
def fidForm : Form (List (String × ℤ)) :=
  let fid := (int false).before (fixed ": ") (by decide +kernel)
  ((quoted .literal false).seq fid (by decide +kernel)).braced rfl rfl rfl fun _ h ↦ by
    cases h

def copyForm : Form (String × String × List (String × ℤ)) :=
  let src := (quoted .literal false).before (fixed "COPY (SELECT * FROM read_parquet(")
    (by decide +kernel)
  let zl := (quoted .literal true).before (fixed ", file_row_number = false)) TO ")
    (by decide +kernel)
  let ids := (fidForm.before (fixed "(FORMAT OPENZL, FIELD_IDS ") (by decide +kernel)).after
    (fixed ", CHUNK_SIZE_BYTES 0);") (by decide +kernel)
  src.seq (zl.seq ids (by decide +kernel)) (by decide +kernel)

def decompressForm : Form (String × String) :=
  let zl := (quoted .literal false).before (fixed "SELECT openzl_decompress(") (by decide +kernel)
  let tmpPath := ((quoted .literal false).before (fixed ", ") (by decide +kernel)).after
    (fixed ");") (by decide +kernel)
  zl.seq tmpPath (by decide +kernel)

def repointForm : Form (String × String × ℤ × ℤ × ℤ) :=
  let metaPath := (quoted .literal true).before (fixed "ATTACH ") (by decide +kernel)
  let newPath := ((quoted .literal false).before
    (fixed "UPDATE meta.ducklake_data_file SET path = ") (by decide +kernel)).before
    (fixed "AS meta; ") (by decide +kernel)
  let logical := ((int false).before (fixed "file_size_bytes = ") (by decide +kernel)).before
    (fixed ", path_is_relative = false, ") (by decide +kernel)
  let footer := (int true).before (fixed ", footer_size = ") (by decide +kernel)
  let id := ((int false).before (fixed "WHERE data_file_id = ") (by decide +kernel)).after
    (fixed ";") (by decide +kernel)
  metaPath.seq (newPath.seq (logical.seq (footer.seq id (by decide +kernel)) (by decide +kernel))
    (by decide +kernel)) (by decide +kernel)

/-! ## Which statement it is -/

def fieldIdsOpening : Spaced := fixed "SELECT name, field_id, "

def fingerprintOpening : Spaced := fixed "SELECT count(*), "

def decompressOpening : Spaced := fixed "SELECT openzl_decompress("

def repointOpening : Spaced := fixed "ATTACH "

theorem fieldIds_opens : fieldIdsForm.OpensWith [fieldIdsOpening] := opensWith_before.after

theorem fingerprint_opens : fingerprintForm.OpensWith [fingerprintOpening] := opensWith_before.after

theorem decompress_opens : decompressForm.OpensWith [decompressOpening] := by
  unfold decompressForm
  exact opensWith_before.seq

theorem repoint_opens : repointForm.OpensWith [repointOpening] := by
  unfold repointForm
  exact opensWith_before.seq

theorem fingerprint_rejects : ∀ ts ∈ [repointOpening], fingerprintForm.Rejects ts := by
  intro ts hts
  rw [List.mem_singleton] at hts
  subst hts
  apply Rejects.after
  apply rejects_before
  decide +kernel

theorem fieldIds_rejects :
    ∀ ts ∈ [fingerprintOpening] ++ [repointOpening], fieldIdsForm.Rejects ts := by
  intro ts hts
  apply Rejects.after
  apply rejects_before
  revert ts
  decide +kernel

theorem decompress_rejects :
    ∀ ts ∈ [fieldIdsOpening] ++ ([fingerprintOpening] ++ [repointOpening]),
      decompressForm.Rejects ts := by
  intro ts hts
  unfold decompressForm
  apply Rejects.seq
  apply rejects_before
  revert ts
  decide +kernel

theorem copy_rejects :
    ∀ ts ∈ [decompressOpening] ++ ([fieldIdsOpening] ++ ([fingerprintOpening] ++
      [repointOpening])), copyForm.Rejects ts := by
  intro ts hts
  unfold copyForm
  apply Rejects.seq
  apply rejects_before
  revert ts
  decide +kernel

/-- The statement behind the settings. -/
def statementForm : Form Statement :=
  let counts := fingerprintForm.choose repointForm (by decide +kernel) repoint_opens
    fingerprint_rejects
  let names := fieldIdsForm.choose counts (by decide +kernel)
    (fingerprint_opens.choose repoint_opens) fieldIds_rejects
  let restores := decompressForm.choose names (by decide +kernel)
    (fieldIds_opens.choose (fingerprint_opens.choose repoint_opens)) decompress_rejects
  let copies := copyForm.choose restores (by decide +kernel)
    (decompress_opens.choose (fieldIds_opens.choose (fingerprint_opens.choose repoint_opens)))
    copy_rejects
  copies.map
    (fun
      | .inl (src, zl, ids) => .copy src zl ids
      | .inr (.inl (zl, tmpPath)) => .decompress zl tmpPath
      | .inr (.inr (.inl path)) => .fieldIds path
      | .inr (.inr (.inr (.inl path))) => .fingerprint path
      | .inr (.inr (.inr (.inr (metaPath, newPath, logical, footer, id)))) =>
          .repoint metaPath newPath logical footer id)
    (fun
      | .copy src zl ids => .inl (src, zl, ids)
      | .decompress zl tmpPath => .inr (.inl (zl, tmpPath))
      | .fieldIds path => .inr (.inr (.inl path))
      | .fingerprint path => .inr (.inr (.inr (.inl path)))
      | .repoint metaPath newPath logical footer id =>
          .inr (.inr (.inr (.inr (metaPath, newPath, logical, footer, id)))))
    fun st ↦ by cases st <;> rfl

def scriptForm : Form (Duck × Statement) := preForm.seq statementForm (by decide +kernel)

end Forms

/-! ## They are the texts -/

theorem sq_eq (s : String) : (sq s).toList = (Token.quoted .literal s).text := by
  simp only [sq, Token.text, quote, Quote.char, String.toList_append, String.toList_ofList]
  rfl

theorem toList_toString (i : ℤ) : (toString i).toList =
    (if i < 0 then ['-'] else []) ++ i.natAbs.repr.toList := by
  change intText i = _
  obtain ⟨n, rfl | rfl⟩ := i.eq_nat_or_neg
  · rw [if_neg (by omega), intText_natCast, Int.natAbs_natCast, Nat.toList_repr]
    rfl
  · rcases Nat.eq_zero_or_pos n with rfl | hn
    · rfl
    · rw [if_pos (by omega), intText_neg hn, Int.natAbs_neg, Int.natAbs_natCast, Nat.toList_repr]
      rfl

theorem render_quoted (q : Quote) (blank : Bool) (text : String) :
    render ((Form.quoted q blank).write text) =
      (Token.quoted q text).text ++ Form.behind blank := by
  simp [Form.quoted, render]

theorem render_int (blank : Bool) (i : ℤ) :
    render ((Form.int blank).write i) = (toString i).toList ++ Form.behind blank := by
  rw [toList_toString]
  by_cases hi : i < 0 <;> simp [Form.int, Form.writeInt, hi, render, Token.text, Token.tight]

theorem toList_join (texts : List String) :
    (join texts).toList = commaText (texts.map String.toList) := by
  induction texts with
  | nil => rfl
  | cons text rest ih =>
      cases rest with
      | nil => rfl
      | cons next rest =>
          rw [join, String.toList_append, String.toList_append, ih]
          simp [commaText]

theorem render_fieldIds (path : String) :
    render (fieldIdsForm.write path) = (Statement.fieldIds path).text.toList := by
  have hopen : render (fixed "SELECT name, field_id, ") ++
      render (fixed "num_children FROM parquet_schema(") =
      "SELECT name, field_id, num_children FROM parquet_schema(".toList := by decide +kernel
  have hclose : render (fixed ") WHERE name <> 'duckdb_schema';") =
      ") WHERE name <> 'duckdb_schema';".toList := by decide +kernel
  unfold fieldIdsForm Statement.text
  simp only [Form.after, Form.before, render_append, render_quoted, ← hopen, hclose, sq_eq,
    Form.behind, String.toList_append, List.append_assoc]
  rfl

theorem render_fingerprint (path : String) :
    render (fingerprintForm.write path) = (Statement.fingerprint path).text.toList := by
  have hcount : render (fixed "SELECT count(*), ") ++
      render (fixed "coalesce(sum(hash(t)::HUGEINT), 0) FROM ") =
      "SELECT count(*), coalesce(sum(hash(t)::HUGEINT), 0) FROM ".toList := by decide +kernel
  have hfrom : render (fixed "(SELECT * FROM read_parquet(") =
      "(SELECT * FROM read_parquet(".toList := by decide +kernel
  have hclose : render (fixed ", file_row_number = true)) t;") =
      ", file_row_number = true)) t;".toList := by decide +kernel
  unfold fingerprintForm Statement.text
  simp only [Form.after, Form.before, render_append, render_quoted, ← hcount, hfrom, hclose, sq_eq,
    Form.behind, String.toList_append, List.append_assoc]
  rfl

theorem render_decompress (zl tmpPath : String) :
    render (decompressForm.write (zl, tmpPath)) =
      (Statement.decompress zl tmpPath).text.toList := by
  have hopen : render (fixed "SELECT openzl_decompress(") = "SELECT openzl_decompress(".toList := by
    decide +kernel
  have hcomma : render (fixed ", ") = ", ".toList := by decide +kernel
  have hclose : render (fixed ");") = ");".toList := by decide +kernel
  unfold decompressForm Statement.text
  simp only [Form.after, Form.before, Form.seq, render_append, render_quoted, hopen, hcomma, hclose,
    sq_eq, Form.behind, String.toList_append, List.append_assoc]
  rfl

theorem render_pre (duck : Duck) : render (preForm.write duck) = duck.pre.toList := by
  have hload : render (fixed "LOAD ") = "LOAD ".toList := by decide +kernel
  have hmemory : render (fixed "; SET memory_limit=") = "; SET memory_limit=".toList := by
    decide +kernel
  have hthreads : render (fixed "; SET threads=") = "; SET threads=".toList := by decide +kernel
  have hclose : render (fixed "; SET openzl_max_compress_bytes") ++ render (fixed "=8000000000; ") =
      "; SET openzl_max_compress_bytes=8000000000; ".toList := by decide +kernel
  unfold preForm Duck.pre
  simp only [Form.after, Form.before, Form.seq, Form.map, render_append, render_quoted, render_int,
    hload, hmemory, hthreads, ← hclose, sq_eq, Form.behind, String.toList_append,
    List.append_assoc]
  rfl

theorem render_fid (ids : List (String × ℤ)) :
    render (fidForm.write ids) = (fidSql ids).toList := by
  have hcolon : render (fixed ": ") = ": ".toList := by decide +kernel
  have hclose : render [(Token.symbol '\x7d').tight] = "\x7d".toList := by decide +kernel
  have hitem : String.toList ∘ (fun entry : String × ℤ ↦ sq entry.1 ++ ": " ++ toString entry.2) =
      fun entry ↦ (Token.quoted .literal entry.1).text ++ (": ".toList ++
        (toString entry.2).toList) := by
    funext entry
    simp only [Function.comp_apply, String.toList_append, sq_eq, List.append_assoc]
  unfold fidForm fidSql
  simp only [Form.braced, Form.before, Form.seq, render_tight, render_append, Form.render_writeList,
    render_quoted, render_int, hcolon, hclose, hitem, toList_join, Form.behind,
    String.toList_append, List.append_assoc, List.map_map, Bool.false_eq_true, if_false,
    List.append_nil]
  rfl

theorem render_copy (src zl : String) (ids : List (String × ℤ)) :
    render (copyForm.write (src, zl, ids)) = (Statement.copy src zl ids).text.toList := by
  have hopen : render (fixed "COPY (SELECT * FROM read_parquet(") =
      "COPY (SELECT * FROM read_parquet(".toList := by decide +kernel
  have hto : render (fixed ", file_row_number = false)) TO ") =
      ", file_row_number = false)) TO ".toList := by decide +kernel
  have hids : render (fixed "(FORMAT OPENZL, FIELD_IDS ") =
      "(FORMAT OPENZL, FIELD_IDS ".toList := by decide +kernel
  have hclose : render (fixed ", CHUNK_SIZE_BYTES 0);") = ", CHUNK_SIZE_BYTES 0);".toList := by
    decide +kernel
  unfold copyForm Statement.text
  simp only [Form.after, Form.before, Form.seq, render_append, render_quoted, hopen, hto, hids,
    hclose, render_fid, sq_eq, Form.behind, String.toList_append, List.append_assoc]
  rfl

theorem render_repoint (metaPath newPath : String) (logical footer id : ℤ) :
    render (repointForm.write (metaPath, newPath, logical, footer, id)) =
      (Statement.repoint metaPath newPath logical footer id).text.toList := by
  have hattach : render (fixed "ATTACH ") = "ATTACH ".toList := by decide +kernel
  have has : render (fixed "AS meta; ") = "AS meta;".toList ++ " ".toList := by decide +kernel
  have hupdate : render (fixed "UPDATE meta.ducklake_data_file SET path = ") =
      "UPDATE meta.ducklake_data_file SET path = ".toList := by decide +kernel
  have hrelative : render (fixed ", path_is_relative = false, ") =
      ", path_is_relative = false, ".toList := by decide +kernel
  have hsize : render (fixed "file_size_bytes = ") = "file_size_bytes = ".toList := by
    decide +kernel
  have hfooter : render (fixed ", footer_size = ") = ", footer_size = ".toList := by decide +kernel
  have hid : render (fixed "WHERE data_file_id = ") = "WHERE data_file_id = ".toList := by
    decide +kernel
  have hclose : render (fixed ";") = ";".toList := by decide +kernel
  have hmeta : " AS meta;".toList = ' ' :: "AS meta;".toList := by decide +kernel
  have hwhere : " WHERE data_file_id = ".toList = ' ' :: "WHERE data_file_id = ".toList := by
    decide +kernel
  unfold repointForm Statement.text
  simp only [Form.after, Form.before, Form.seq, render_append, render_quoted, render_int, hattach,
    has, hupdate, hrelative, hsize, hfooter, hid, hclose, hmeta, hwhere, sq_eq, Form.behind,
    String.toList_append, List.append_assoc]
  rfl

theorem render_statement (st : Statement) :
    render (statementForm.write st) = st.text.toList := by
  cases st with
  | fieldIds path => exact render_fieldIds path
  | fingerprint path => exact render_fingerprint path
  | copy src zl ids => exact render_copy src zl ids
  | decompress zl tmpPath => exact render_decompress zl tmpPath
  | repoint metaPath newPath logical footer id =>
      exact render_repoint metaPath newPath logical footer id

/-- What the shell gets reads back as the settings and the statement it was made of. -/
theorem script_reads_back (duck : Duck) (st : Statement) :
    (lex (duck.pre ++ st.text).toList).bind scriptForm.read = some ((duck, st), []) := by
  have htext : render (scriptForm.write (duck, st)) = (duck.pre ++ st.text).toList := by
    rw [String.toList_append, ← render_pre, ← render_statement]
    exact render_append _ _
  have hread := scriptForm.read_write (duck, st) []
  rw [List.append_nil] at hread
  rw [← htext, scriptForm.lex_write rfl, Option.bind_some, hread]

end DucklakePack

end DuckdbOpenzl
