import SqlBatch.Proofs.Placeholder.Single
import SqlBatch.Proofs.Placeholder.Tally

/-!
# What literals and comments say

A literal or comment leaves nothing but spaces of its text, as many as it has bytes, and to the
placeholders around them it makes no difference how many these are. So two statements that are read
in the same way up to their literals and comments have the same placeholders, whatever is written in
the literals and comments of the one and of the other.
-/

namespace SqlBatch

open Text

/-- Two events that can be told apart by nothing but what a literal or a comment says. -/
def Event.Alike (e e' : Event) : Prop :=
  e.kind.hides = true ∧ e'.kind.hides = true ∨ e.kind = e'.kind ∧ e.text = e'.text

instance (e e' : Event) : Decidable (e.Alike e') :=
  inferInstanceAs (Decidable (_ ∧ _ ∨ _ ∧ _))

namespace Placeholders

theorem all_isMute_maskEvent {e : Event} (hides : e.kind.hides = true) :
    (maskEvent e).all isMute = true := by
  rw [maskEvent_eq, if_pos hides]
  exact Masked.replicate_isMute _

theorem maskEvent_ne_nil {e : Event} (hides : e.kind.hides = true) (htext : e.text ≠ []) :
    maskEvent e ≠ [] := by
  rw [maskEvent_eq, if_pos hides]
  intro hnil
  have hbytes := byteLength_pos htext
  have hzero : byteLength e.text = 0 := (List.replicate_eq_nil_iff _).mp hnil
  omega

/-- Neither of two alike events can be told from the other by placeholders. -/
theorem respaced_of_alike {e e' : Event} (h : e.Alike e')
    (htext : e.kind.hides = true → e.text ≠ []) (htext' : e'.kind.hides = true → e'.text ≠ []) :
    Respaced (maskEvent e) (maskEvent e') := by
  rcases h with ⟨hides, hides'⟩ | ⟨hkind, hsame⟩
  · apply Respaced.of_isMute
    · exact all_isMute_maskEvent hides
    · exact all_isMute_maskEvent hides'
    · exact maskEvent_ne_nil hides (htext hides)
    · exact maskEvent_ne_nil hides' (htext' hides')
  · rw [maskEvent_eq, maskEvent_eq, hkind, hsame]
    exact .refl _

private theorem respaced_of_forall₂ {es es' : List Event} (h : List.Forall₂ Event.Alike es es')
    (htext : ∀ e ∈ es, e.kind.hides = true → e.text ≠ [])
    (htext' : ∀ e ∈ es', e.kind.hides = true → e.text ≠ []) :
    Respaced (es.flatMap maskEvent) (es'.flatMap maskEvent) := by
  induction h with
  | nil => exact .refl []
  | cons halike _ ih =>
      obtain ⟨he, hes⟩ := List.forall_mem_cons.mp htext
      obtain ⟨he', hes'⟩ := List.forall_mem_cons.mp htext'
      exact (respaced_of_alike halike he he').append (ih hes hes')

theorem text_ne_nil_of_mem_scan {options : SplitOptions} {script : List Char} {e : Event}
    (hmem : e ∈ (scan options script).events) (hides : e.kind.hides = true) : e.text ≠ [] := by
  obtain ⟨before, after, hevents⟩ := List.append_of_mem hmem
  obtain ⟨s, t, -, hstep⟩ := exists_step_of_scan_eq hevents
  apply Scanner.text_ne_nil_of_kind_ne hstep
  intro hterminator
  rw [hterminator] at hides
  cases hides

/-- **Placeholders do not depend on what literals and comments say.** Where two statements are read
as events that are alike, one by one, the same is found in both: the same placeholders, or the same
two styles that are mixed. -/
theorem extract_eq_of_alike {options : SplitOptions} {sql sql' : String}
    (hscan : (scan (scanOptions options) sql.toList).ending = .complete)
    (hscan' : (scan (scanOptions options) sql'.toList).ending = .complete)
    (halike : List.Forall₂ Event.Alike (scan (scanOptions options) sql.toList).events
      (scan (scanOptions options) sql'.toList).events) :
    extract options sql = extract options sql' ∧
      ((∃ found, extract options sql = .ok found) ∨ ∃ first second, first ≠ second ∧
        extract options sql = .error (.mixedPlaceholders 0 first second)) := by
  have hsame := (respaced_of_forall₂ halike (fun _ => text_ne_nil_of_mem_scan)
    fun _ => text_ne_nil_of_mem_scan).tokens_eq
  rw [tokens_eq_placeholdersIn, tokens_eq_placeholdersIn] at hsame
  have hextract := extract_eq_ofTokens hscan
  refine ⟨?_, ?_⟩
  · rw [hextract, extract_eq_ofTokens hscan', hsame]
  · rw [hextract]
    cases hfound : ofTokens _ with
    | ok found => exact .inl ⟨found, rfl⟩
    | error e =>
        obtain ⟨first, same, other, after, -, -, hother, rfl⟩ := ofTokens_eq_error_iff.mp hfound
        exact .inr ⟨first.kind, other.kind, hother.symm, rfl⟩

/-- A string and a comment in one statement, a dollar string and a comment of another style in the
other. -/
theorem extract_eq_of_alike_contents :
    let sql := "SELECT '', $2 --"
    let sql' := "SELECT $a$ ?, ''$1 :b $a$, $2 /* ? $9 */"
    (scan (scanOptions {}) sql.toList).ending = .complete ∧
    (scan (scanOptions {}) sql'.toList).ending = .complete ∧
    List.Forall₂ Event.Alike (scan (scanOptions {}) sql.toList).events
      (scan (scanOptions {}) sql'.toList).events ∧
    extract {} sql = extract {} sql' := by
  intro sql sql'
  have hscan : (scan (scanOptions {}) sql.toList).ending = .complete := by decide +kernel
  have hscan' : (scan (scanOptions {}) sql'.toList).ending = .complete := by decide +kernel
  have halike : List.Forall₂ Event.Alike (scan (scanOptions {}) sql.toList).events
      (scan (scanOptions {}) sql'.toList).events := by decide +kernel
  exact ⟨hscan, hscan', halike, (extract_eq_of_alike hscan hscan' halike).1⟩

end Placeholders

end SqlBatch
