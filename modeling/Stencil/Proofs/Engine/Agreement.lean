/-
# Stencil.Proofs.Engine.Agreement -- what is computed, inserted and assigned is the same

A text can be computed by itself, inserted into a template, and assigned to a name. With blanks
around it, it has one value in all three places: what is computed is what is rendered, and what
the name is bound to afterwards. A text of one line that cannot be computed cannot be assigned,
and it cannot be inserted either if it has no closing brace.

The texts differ in what normalising does to them. Between braces the blanks stay and are read
by the grammar; at the end of a line they are cut, and with them those behind the colon if
nothing else follows it.
-/
import Stencil.Proofs.Engine.Operation
import Stencil.Proofs.Expression.Places

namespace Stencil

open Parse

variable {name src before after : String}

/-! ## The texts -/

/-- A text inserted into a template, with texts before and after it. -/
def insertion (before src after : String) : String := "\x7b=" ++ before ++ src ++ after ++ "\x7d"

/-- A text assigned to a name, with texts before and after it. -/
def assigning (name before src after : String) : String := name ++ ":" ++ before ++ src ++ after

theorem toList_insertion : (insertion before src after).toList =
    '\x7b' :: '=' :: (before.toList ++ (src.toList ++ (after.toList ++ ['\x7d']))) := by
  simp [insertion, String.toList_append]

theorem toList_assigning : (assigning name before src after).toList =
    name.toList ++ (':' :: (before.toList ++ (src.toList ++ after.toList))) := by
  simp [assigning, String.toList_append]

theorem utf8ByteSize_le_insertion :
    src.utf8ByteSize ≤ (insertion before src after).utf8ByteSize := by
  simp only [insertion, String.utf8ByteSize_append]
  omega

theorem utf8ByteSize_le_assigning :
    name.utf8ByteSize ≤ (assigning name before src after).utf8ByteSize ∧
      src.utf8ByteSize ≤ (assigning name before src after).utf8ByteSize := by
  simp only [assigning, String.utf8ByteSize_append]
  omega

/-! ## Normal forms -/

/-- A text in normal form, with blanks before and after it. -/
structure IsPadded (before src after : String) : Prop where
  blanks_before : Blanks before.toList
  blanks_after : Blanks after.toList
  normalize_eq : Text.normalize src = src

namespace IsPadded

theorem isNormal (h : IsPadded before src after) : Text.IsNormal src.toList :=
  Text.normalize_eq_self_iff.mp h.normalize_eq

theorem trimmed (h : IsPadded before src after) : Text.Trimmed Text.isBlank src.toList :=
  h.isNormal.trimmed.imp fun _ => Text.isMargin_of_isBlank

/-- Between braces, the blanks stay. -/
theorem normalize_insertion (h : IsPadded before src after) (hno : '\n' ∉ src.toList) :
    Text.normalize (insertion before src after) = insertion before src after := by
  rw [Text.normalize_eq_self_iff, toList_insertion]
  have hclosed : EndsInk ['\x7d'] := ⟨'\x7d', [], rfl, rfl⟩
  have hends : EndsInk ('\x7b' :: '=' ::
      (before.toList ++ (src.toList ++ (after.toList ++ ['\x7d'])))) :=
    (((hclosed.append_left _).append_left _).append_left _).append_left ['\x7b', '=']
  refine ⟨⟨clear_cons.mpr rfl, hends.clear⟩, Text.tight_of_no_lineEnd ?_⟩
  simp [h.blanks_before.no_lineEnd, h.blanks_after.no_lineEnd, hno]

end IsPadded

theorem isNormal_name {s : List Char} (h : IsName name s) : Text.IsNormal s :=
  ⟨⟨Text.clear_isMargin h.leadsInk, h.endsInk.clear⟩, Text.tight_of_no_lineEnd h.no_lineEnd⟩

/-- A line is in normal form if its expression is, and nothing stands behind the colon that is
cut. -/
theorem isNormal_line {s w : List Char} (hname : isIdentifier name = true) (hs : Text.IsNormal s)
    (hno : '\n' ∉ s) (hw : Blanks w) (hempty : s = [] → w = []) :
    Text.IsNormal (name.toList ++ (':' :: (w ++ s))) := by
  have hname' : IsName name name.toList := ⟨hname, rfl⟩
  have hends : EndsInk (':' :: (w ++ s)) := by
    cases hrev : s.reverse with
    | nil =>
      obtain rfl := List.reverse_eq_nil_iff.mp hrev
      rw [hempty rfl]
      exact ⟨':', [], rfl, rfl⟩
    | cons x rest =>
      have hx : Text.isMargin x = false := clear_cons.mp (hrev ▸ hs.trimmed.2)
      have hs' : EndsInk s := ⟨x, rest, hrev, by simp [hx]⟩
      exact (hs'.append_left w).append_left [':']
  refine ⟨⟨Text.clear_isMargin (hname'.leadsInk.append _), (hends.append_left _).clear⟩,
    Text.tight_of_no_lineEnd ?_⟩
  simp [hname'.no_lineEnd, hw.no_lineEnd, hno]

/-- In normal form, a line ends with its expression. -/
theorem IsPadded.exists_normal_line (h : IsPadded before src after)
    (hname : isIdentifier name = true) (hno : '\n' ∉ src.toList) :
    ∃ w, Blanks w ∧ (Text.normalize (assigning name before src after)).toList =
      name.toList ++ (':' :: (w ++ src.toList)) := by
  rw [Text.normalize, String.toList_ofList, toList_assigning]
  by_cases hempty : src.toList = []
  · -- the blanks on both sides of nothing are cut
    have hnormal := isNormal_line hname h.isNormal hno blanks_nil fun _ => rfl
    have hblanks : Blanks (before.toList ++ after.toList) := fun x hx =>
      (List.mem_append.mp hx).elim (h.blanks_before x) (h.blanks_after x)
    refine ⟨[], blanks_nil, ?_⟩
    rw [hempty] at hnormal ⊢
    have hcut := Text.normalChars_append_blanks hnormal hblanks
    simpa using hcut
  · have hnormal := isNormal_line hname h.isNormal hno h.blanks_before fun hnil =>
      absurd hnil hempty
    refine ⟨before.toList, h.blanks_before, ?_⟩
    have hcut := Text.normalChars_append_blanks hnormal h.blanks_after
    simpa using hcut

/-! ## Names -/

/-- A condition that only asks about a name. -/
theorem Condition.eval_present (vars : Valuation) (name : String) :
    (Condition.eval vars [[.present false name]]).value = (vars name).isTruthy := by
  cases h : (vars name).isTruthy <;>
    simp [Condition.eval, Conjunction.eval, Atom.eval, Traced.read, h]

/-- The four words for the truth values. -/
theorem TruthWord.mem_words {b : Bool} (h : TruthWord b name.toList) :
    name ∈ ["true", "false", "yes", "no"] := by
  generalize hs : name.toList = s at h
  have hname : ∀ word : String, s = word.toList → name = word := fun word hword =>
    String.toList_inj.mp (hs.trans hword)
  cases h with
  | true => simp [hname "true" rfl]
  | yes => simp [hname "yes" rfl]
  | false => simp [hname "false" rfl]
  | no => simp [hname "no" rfl]

/-! ## Assigning -/

/-- A line assigns an expression to its name just if its text is that expression. -/
theorem IsPadded.parseAll_line_iff {limits : Limits} {list : List Assignment}
    (h : IsPadded before src after) (hname : isIdentifier name = true) (hno : '\n' ∉ src.toList)
    (hbytes : (assigning name before src after).utf8ByteSize ≤ limits.maxBytes) :
    Assignment.parseAll (Text.normalize (assigning name before src after)) limits = .ok list ↔
      ∃ t : Expression, list = [⟨name, t⟩] ∧ t.Written src.toList := by
  obtain ⟨w, hw, hline⟩ := h.exists_normal_line hname hno
  have hname' : IsName name name.toList := ⟨hname, rfl⟩
  have hno' : '\n' ∉ name.toList ++ (':' :: (w ++ src.toList)) := by
    simp [hname'.no_lineEnd, hw.no_lineEnd, hno]
  rw [Assignment.parseAll_eq_ok_iff, hline, Assignment.listWritten_iff_of_no_lineEnd hno']
  simp only [Assignment.written_colon_iff hname hw h.trimmed]
  constructor
  · rintro ⟨-, ⟨_, t⟩, rfl, rfl, ht⟩
    exact ⟨t, rfl, ht⟩
  · rintro ⟨t, rfl, ht⟩
    exact ⟨(Text.utf8ByteSize_normalize_le _).trans hbytes, _, rfl, rfl, ht⟩

namespace Engine

variable {e : Engine} {vars : Option Store} {v : Value}

/-- A text in normal form is computed as the expression that it writes. -/
theorem calculate_eq_ok_iff_written (hsrc : Text.normalize src = src)
    (hbytes : src.utf8ByteSize ≤ e.limits.maxBytes) : (e.calculate src vars).answer = .ok v ↔
      ∃ t : Expression, t.Written src.toList ∧ (t.eval (vars.getD e.vars).lookup).value = v := by
  simp only [calculate_eq_ok_iff, hsrc, Expression.parse_eq_ok_iff, hbytes, true_and]

/-- What is assigned is what is computed. -/
theorem update_line_eq_ok_iff {result : Store} (h : IsPadded before src after)
    (hname : isIdentifier name = true) (hno : '\n' ∉ src.toList)
    (hbytes : (assigning name before src after).utf8ByteSize ≤ e.limits.maxBytes) :
    (e.update (assigning name before src after) vars).answer = .ok result ↔
      ∃ v, (e.calculate src vars).answer = .ok v ∧ result = (vars.getD e.vars).set name v := by
  have hsize := utf8ByteSize_le_assigning.2.trans hbytes
  simp only [calculate_eq_ok_iff_written h.normalize_eq hsize, update_answer, map_eq_ok_iff,
    h.parseAll_line_iff hname hno hbytes]
  constructor
  · rintro ⟨_, ⟨t, rfl, ht⟩, rfl⟩
    exact ⟨_, ⟨t, ht, rfl⟩, rfl⟩
  · rintro ⟨_, ⟨t, ht, rfl⟩, rfl⟩
    exact ⟨_, ⟨t, rfl, ht⟩, rfl⟩

/-! ## Inserting -/

/-- What is inserted is what is computed. -/
theorem transform_insertion (h : IsPadded before src after)
    (hbytes : (insertion before src after).utf8ByteSize ≤ e.limits.maxBytes)
    (hv : (e.calculate src vars).answer = .ok v) :
    (e.transform (insertion before src after) vars).answer = .ok (Text.collapse v.text) := by
  have hsize := utf8ByteSize_le_insertion.trans hbytes
  obtain ⟨t, ht, rfl⟩ := (calculate_eq_ok_iff_written h.normalize_eq hsize).mp hv
  have hwritten : Template.Written [.substitution t] (insertion before src after).toList := by
    rw [toList_insertion]
    exact Template.written_insertion ht h.blanks_before h.blanks_after
  have hparse : Template.parse (insertion before src after) e.limits = .ok [.substitution t] :=
    Template.parse_eq_ok_iff.mpr ⟨hbytes, hwritten, Nat.zero_le _⟩
  rw [transform_answer, h.normalize_insertion ht.no_lineEnd, hparse, Except.map,
    Template.render_singleton]
  rfl

/-- What can be inserted can be computed, if it holds no closing brace. -/
theorem exists_calculate_of_transform {out : String} (h : IsPadded before src after)
    (hno : '\n' ∉ src.toList) (hbrace : '\x7d' ∉ src.toList)
    (hbytes : (insertion before src after).utf8ByteSize ≤ e.limits.maxBytes)
    (hout : (e.transform (insertion before src after) vars).answer = .ok out) :
    ∃ v, (e.calculate src vars).answer = .ok v := by
  have hsize := utf8ByteSize_le_insertion.trans hbytes
  rw [transform_answer, h.normalize_insertion hno, map_eq_ok_iff] at hout
  obtain ⟨t, hparse, -⟩ := hout
  have ht := (Template.parse_eq_ok_iff.mp hparse).2.1
  rw [toList_insertion] at ht
  obtain ⟨t, ht⟩ := ht.exists_expression h.blanks_before h.blanks_after h.trimmed hbrace
  exact ⟨_, (calculate_eq_ok_iff_written h.normalize_eq hsize).mpr ⟨t, ht, rfl⟩⟩

/-! ## Looking up -/

/-- A name is computed as what it stands for, unless it is a word for a truth value. -/
theorem calculate_name (hname : isIdentifier name = true)
    (hword : name ∉ ["true", "false", "yes", "no"])
    (hbytes : name.utf8ByteSize ≤ e.limits.maxBytes) :
    (e.calculate name vars).answer = .ok ((vars.getD e.vars).lookup name) := by
  have hname' : IsName name name.toList := ⟨hname, rfl⟩
  have hnormal := Text.normalize_eq_self_iff.mpr (isNormal_name hname')
  rw [calculate_eq_ok_iff_written hnormal hbytes]
  exact ⟨_, .lookup hname' fun _ h => hword h.mem_words, rfl⟩

/-- A name is decided by whether what it stands for counts as true. -/
theorem conditional_name (hname : isIdentifier name = true)
    (hbytes : name.utf8ByteSize ≤ e.limits.maxBytes) :
    (e.conditional name vars).answer = .ok ((vars.getD e.vars).lookup name).isTruthy := by
  have hname' : IsName name name.toList := ⟨hname, rfl⟩
  have hatom : Atom.Written (.present false name) name.toList := by
    have h := Atom.Written.present false hname' (.inl rfl)
    rwa [List.append_nil] at h
  have hparse : Condition.parse name e.limits = .ok [[.present false name]] :=
    Condition.parse_eq_ok_iff.mpr ⟨hbytes, .one (.one hatom), Nat.zero_le _⟩
  rw [conditional_answer, Text.normalize_eq_self_iff.mpr (isNormal_name hname'), hparse,
    Except.map, Condition.eval_present]

end Engine

/-- A value expression in its three places, under limits that allow each text. Where a text in
normal form is computed as a value, it is inserted as the written form of this value; a line
that assigns it to a name binds the name to just this value and changes no other binding, and
the name then stands for it, as an expression unless it is a word for a truth value, and as a
condition always. Where a text of one line cannot be computed, the line fails, and so does the
insertion if the text has no closing brace. -/
theorem expression_places_agree (e : Engine) (vars : Option Store)
    (name src before after : String) (hname : isIdentifier name = true)
    (hsrc : Text.normalize src = src) (hbefore : Blanks before.toList)
    (hafter : Blanks after.toList)
    (hinsert : (insertion before src after).utf8ByteSize ≤ e.limits.maxBytes)
    (hassign : (assigning name before src after).utf8ByteSize ≤ e.limits.maxBytes) :
    let computed := (e.calculate src vars).answer
    let rendered := (e.transform (insertion before src after) vars).answer
    let updated := e.update (assigning name before src after) vars
    (∀ v, computed = .ok v →
      rendered = .ok (Text.collapse v.text) ∧
      updated.answer = .ok updated.engine.vars ∧
      updated.engine.vars.get? name = some v ∧
      (∀ other, other ≠ name →
        updated.engine.vars.get? other = (vars.getD e.vars).get? other) ∧
      (name ∉ ["true", "false", "yes", "no"] →
        (updated.engine.calculate name none).answer = .ok v) ∧
      (updated.engine.conditional name none).answer = .ok v.isTruthy) ∧
    ((∃ f, computed = .error f) → '\n' ∉ src.toList →
      (∃ f, updated.answer = .error f) ∧
      ('\x7d' ∉ src.toList → ∃ f, rendered = .error f)) := by
  intro computed rendered updated
  have hpadded : IsPadded before src after := ⟨hbefore, hafter, hsrc⟩
  have hsize := utf8ByteSize_le_assigning.1.trans hassign
  constructor
  · intro v hv
    obtain ⟨t, ht, -⟩ :=
      (Engine.calculate_eq_ok_iff_written hsrc (utf8ByteSize_le_insertion.trans hinsert)).mp hv
    have hupdate : updated.answer = .ok ((vars.getD e.vars).set name v) :=
      (Engine.update_line_eq_ok_iff hpadded hname ht.no_lineEnd hassign).mpr ⟨v, hv, rfl⟩
    have hvars : updated.engine.vars = (vars.getD e.vars).set name v := by
      rw [Engine.update_vars, hupdate]
    have hlookup : updated.engine.vars.lookup name = v := by
      rw [hvars, Store.lookup, Store.get?_set, if_pos rfl]
      rfl
    have hlimits : name.utf8ByteSize ≤ updated.engine.limits.maxBytes := by
      rwa [Engine.update_limits]
    refine ⟨Engine.transform_insertion hpadded hinsert hv, hvars ▸ hupdate, ?_, ?_, ?_, ?_⟩
    · rw [hvars, Store.get?_set, if_pos rfl]
    · intro other hother
      rw [hvars, Store.get?_set, if_neg hother.symm]
    · intro hword
      rw [Engine.calculate_name hname hword hlimits, Option.getD_none, hlookup]
    · rw [Engine.conditional_name hname hlimits, Option.getD_none, hlookup]
  · intro hfailed hno
    have hfail : ∀ v, computed ≠ .ok v := exists_error_iff.mp hfailed
    constructor
    · refine exists_error_iff.mpr fun result hupdate => ?_
      obtain ⟨v, hv, -⟩ := (Engine.update_line_eq_ok_iff hpadded hname hno hassign).mp hupdate
      exact hfail v hv
    · intro hbrace
      refine exists_error_iff.mpr fun out hrender => ?_
      obtain ⟨v, hv⟩ := Engine.exists_calculate_of_transform hpadded hno hbrace hinsert hrender
      exact hfail v hv

/-- A text with three line ends, assigned to a word for a truth value; and half a sum. -/
theorem expression_places_agree_line_ends :
    let e : Engine := { vars := Store.empty.set "a" (.str "x\n\n\ny") }
    (e.transform (insertion " " "a" "\t") none).answer = .ok "x\n\ny" ∧
      (e.update (assigning "no" " " "a" "\t") none).engine.vars.get? "no" =
        some (.str "x\n\n\ny") ∧
      (∃ f, (e.update (assigning "no" " " "a +" "\t") none).answer = .error f) ∧
      ∃ f, (e.transform (insertion " " "a +" "\t") none).answer = .error f := by
  intro e
  have hblank : Blanks " ".toList := by decide
  have htab : Blanks "\t".toList := by decide
  have hvalue : (e.calculate "a" none).answer = .ok (.str "x\n\n\ny") := by
    rw [Engine.calculate_name (by decide) (by decide) (by decide +kernel)]
    exact congrArg Except.ok (by decide +kernel)
  have hfail : ∃ f, (e.calculate "a +" none).answer = .error f := ⟨_, rfl⟩
  obtain ⟨hsome, -⟩ := expression_places_agree e none "no" "a" " " "\t" (by decide)
    (by decide +kernel) hblank htab (by decide +kernel) (by decide +kernel)
  obtain ⟨-, hnone⟩ := expression_places_agree e none "no" "a +" " " "\t" (by decide)
    (by decide +kernel) hblank htab (by decide +kernel) (by decide +kernel)
  obtain ⟨hrendered, -, hbound, -⟩ := hsome _ hvalue
  obtain ⟨hupdated, hinserted⟩ := hnone hfail (by decide)
  exact ⟨hrendered, hbound, hupdated, hinserted (by decide)⟩

/-- With a closing brace in it, a text may be inserted that cannot be computed. -/
example : (Template.parse (insertion "" "1\x7db" "") {}).isOk = true ∧
    ∃ f, Expression.parse "1\x7db" {} = .error f := ⟨by decide +kernel, _, rfl⟩

end Stencil
