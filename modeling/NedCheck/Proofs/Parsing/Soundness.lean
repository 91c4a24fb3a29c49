import NedCheck.Outline
import NedCheck.Proofs.ParseTree.Conversion

/-!
# Parsing gives sound elements

Whatever a parser hands over, the element that comes out of a run passes the structural checks when it is laid out as a parse tree again: a converted tree was checked before, repaired or not, and the empty file that stands for a missing tree is sound by itself. A run never ends on an unknown kind of element, since the checks come before conversion.
-/

namespace NedCheck

/-- A sound element, or a fault other than an unknown kind of element. -/
def SoundResult (result : Except ParseFault Element) : Prop :=
  (∀ e, result = .ok e → e.Sound) ∧ ∀ code, result ≠ .error (.unknownTag code)

namespace SoundResult

theorem ok {e : Element} (h : e.Sound) : SoundResult (.ok e) := by
  refine ⟨?_, by simp⟩
  intro other heq
  cases heq
  exact h

theorem error {fault : ParseFault} (h : ∀ code, fault ≠ .unknownTag code) : SoundResult (.error fault) := by
  refine ⟨by simp, ?_⟩
  intro code heq
  cases heq
  exact h code rfl

end SoundResult

variable {ε σ : Type} (sink : Sink σ)

theorem soundResult_deliver {e : Element} (he : e.Sound) (messages : List (Element × Message)) (state : σ) :
    SoundResult ((ParseTree.deliver sink messages state).1.map fun _ => e) := by
  induction messages generalizing state with
  | nil => exact .ok he
  | cons pair rest ih =>
    rw [ParseTree.deliver]
    split
    · exact .error (by simp)
    · exact ih _

theorem soundResult_accountFor {before : σ} {messages : List Message}
    {converted : Except ParseFault Element × σ} (h : SoundResult converted.1) :
    SoundResult (accountFor sink before messages converted).1 := by
  obtain ⟨result, after⟩ := converted
  cases result with
  | error fault => exact h
  | ok e =>
    rw [accountFor]
    dsimp only
    split
    · exact h
    · exact .error (by simp)

theorem soundResult_convert {tree : ParseTree} (h : tree.problems = []) (messages : List Message) (state : σ) :
    SoundResult (tree.convert messages sink state).1 := by
  obtain ⟨e, he, hsound⟩ := ParseTree.exists_toElement_eq_ok h
  rw [ParseTree.convert, he]
  exact soundResult_deliver sink hsound _ _

theorem soundResult_convertChecked (parser : Parser ε) (messages : List Message) (tree : ParseTree)
    (state : ε) (received : σ) :
    SoundResult (convertChecked parser sink messages tree state received).result := by
  rw [convertChecked]
  split
  · exact .error (by simp)
  · rename_i hproblems
    exact soundResult_accountFor sink (soundResult_convert sink hproblems _ _)

theorem fits_fileValues (kind : FileKind) (name : String) : kind.rootTag.Fits [name, "2"] [] := by
  have hattributes : kind.rootTag.attributes = [.text "filename", ⟨"version", some "2", .text⟩] := by
    cases kind <;> rfl
  refine ⟨by rw [hattributes]; rfl, ?_, by simp, by simp⟩
  intro pair hpair
  rw [hattributes] at hpair
  simp only [List.zip_cons_cons, List.zip_nil_left, List.mem_cons, List.not_mem_nil, or_false] at hpair
  rcases hpair with heq | heq <;> rw [heq] <;> rfl

theorem sound_emptyFile (request : ParseRequest) : request.emptyFile.Sound := by
  have hchildren : request.emptyFile.children = [] := by
    cases request with | mk kind => cases kind <;> rfl
  have hfits : request.emptyFile.tag.Fits request.emptyFile.attributes.values [] := by
    obtain ⟨kind, source, displayName, options⟩ := request
    have hkind := fits_fileValues kind displayName
    cases kind <;> exact hkind
  rw [Element.sound_iff, hchildren]
  exact ⟨hfits, by simp⟩

/-- What a run gives is sound: an element that comes out of it, from a tree or for want of one, has no structural problem, and no run ends on an unknown kind of element. -/
theorem parseSource_sound (parser : Parser ε) (request : ParseRequest) (state : ε) (received : σ) :
    (∀ e, (parseSource parser sink request state received).result = .ok e →
        (ParseTree.ofElement e).problems = []) ∧
      ∀ code, (parseSource parser sink request state received).result ≠ .error (.unknownTag code) := by
  have h : SoundResult (parseSource parser sink request state received).result := by
    rw [parseSource]
    split
    · exact soundResult_accountFor sink (soundResult_deliver sink (sound_emptyFile request) _ _)
    · exact soundResult_convertChecked sink parser _ _ _ _
  exact ⟨fun e he => ParseTree.problems_ofElement_eq_nil_iff.2 (h.1 e he), h.2⟩

/-- A run over an outline whose unknown attribute is warned about, and which therefore loses its misplaced section. -/
def mendedRun : ParseRun Outline.ParserState Collector :=
  parseSource (Outline.parser (fun _ => .error "") none) Collector.sink
    ⟨.ned, .text "ned-file\n  gates\n  package name=p bogus=1", "a.ned", {}⟩ ⟨0⟩ .empty

theorem parseSource_sound_repaired :
    ∃ e, mendedRun.result = .ok e ∧ e.children.map Element.tag = [.package] ∧
      (ParseTree.ofElement e).problems = [] := by
  have hkinds : (mendedRun.result.toOption.map fun e => e.children.map Element.tag) = some [.package] := by
    decide +kernel
  cases hresult : mendedRun.result with
  | error fault => simp [hresult, Except.toOption] at hkinds
  | ok e =>
    rw [hresult] at hkinds
    exact ⟨e, rfl, Option.some.inj hkinds, (parseSource_sound _ _ _ _ _).1 e hresult⟩

end NedCheck
