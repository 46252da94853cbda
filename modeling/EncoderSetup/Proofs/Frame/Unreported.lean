import EncoderSetup.Frame.ConstantsDocument
import EncoderSetup.Frame.Layout
import EncoderSetup.Proofs.Diagnostic.Reports

/-!
# Errors of layout calls are returned, not reported

A zero constant, a product beyond 64 bits and a result beyond 32 are misuse like an empty attribute
name, but tables and calculators do not log them as errors, and no debug word ends the process at
one: a call answers its error, whatever the word (`LayoutCall.errors_returned_unreported`).
-/

namespace EncoderSetup

/-- An outcome that is only passed on is not reported. -/
theorem Checked.reports_ofExcept {α : Type} (o : Except SetupError α) :
    (MonadExcept.ofExcept o : Checked α).run.Reports o [] := by
  cases o with
  | ok a => exact Traced.Reports.pure _
  | error e => exact Traced.Reports.pure _

theorem Checked.reports_map {α β : Type} {x : Checked α} {o : Except SetupError α}
    {es : List SetupError} (hx : x.run.Reports o es) (g : α → β) :
    (g <$> x).run.Reports (g <$> o) es := by
  cases o with
  | ok a => exact hx.bind_silent (Traced.Reports.pure _)
  | error e => exact hx.bind_silent (Traced.Reports.pure _)

namespace Calculator

variable (k : Calculator)

theorem reports_frame (r : FrameRequest) : (k.frame r).run.Reports (k.frameSize r) [] := by
  unfold frame
  cases k.frameSize r with
  | error e => exact Traced.Reports.pure _
  | ok l =>
      refine (Checked.reports_ofExcept (.ok l)).bind ?_
      by_cases hpixels : r.width ≠ 0 ∧ r.height ≠ 0
      · have hlog : (Traced.logIf .layouts (.laidOut l)).Reports () [] :=
          Traced.Reports.logIf .layouts nofun
        have hstep : (liftM (Traced.logIf .layouts (.laidOut l)) : Checked Unit).run.Reports
            (.ok ()) [] := hlog.bind (Traced.Reports.pure _)
        simp only [ExceptT.bindCont, if_pos hpixels]
        exact hstep.bind (Traced.Reports.pure _)
      · simp only [ExceptT.bindCont, if_neg hpixels]
        exact Traced.Reports.pure _

theorem reports_frames (rs : List FrameRequest) :
    (k.frames rs).Reports (rs.map k.frameSize) [] := by
  induction rs with
  | nil => exact Traced.Reports.pure _
  | cons r rest ih =>
      have hcons : k.frames (r :: rest) =
          (k.frame r).run >>= fun o => k.frames rest >>= fun os => pure (o :: os) := by
        simp [frames]
      rw [hcons]
      exact (k.reports_frame r).bind (ih.bind (Traced.Reports.pure _))

end Calculator

/-- What a program may ask of tables of constants and of calculators. -/
inductive LayoutCall where
  | validate (t : GeometryTable)
  | tableOfText (text : String)
  | tableOfFile (path : String) (content : FileContent)
  | calculator (t : GeometryTable)
  | pixelStride (k : Calculator) (r : PixelStrideRequest)
  | byteStride (k : Calculator) (r : ByteStrideRequest)
  | verticalStride (k : Calculator) (r : VerticalStrideRequest)
  | frame (k : Calculator) (r : FrameRequest)
  | frames (k : Calculator) (rs : List FrameRequest)

inductive LayoutAnswer where
  | valid
  | table (t : GeometryTable)
  | calculator (k : Calculator)
  | stride (pixels : UInt32)
  | layout (l : FrameLayout)
  | layouts (answers : List (Except SetupError FrameLayout))

namespace LayoutCall

open MonadExcept (ofExcept)

def run : LayoutCall → Checked LayoutAnswer
  | validate t => (fun _ => .valid) <$> ofExcept t.validate
  | tableOfText text => .table <$> ofExcept (GeometryTable.ofText text)
  | tableOfFile path content => .table <$> ofExcept (GeometryTable.ofFile path content)
  | calculator t => .calculator <$> ofExcept (Calculator.ofTable t)
  | pixelStride k r => .stride <$> ofExcept (k.pixelStride r)
  | byteStride k r => .stride <$> ofExcept (k.byteStride r)
  | verticalStride k r => .stride <$> ofExcept (k.verticalStride r)
  | frame k r => .layout <$> k.frame r
  | frames k rs => .layouts <$> (k.frames rs : Checked (List (Except SetupError FrameLayout)))

theorem reports_passed {α : Type} (g : α → LayoutAnswer) (o : Except SetupError α) :
    (g <$> (ofExcept o : Checked α)).run.Reports (g <$> o) [] :=
  Checked.reports_map (Checked.reports_ofExcept o) g

/-- Every call has one outcome under all debug words, and logs no error even if the outcome is
misuse and misuse is fatal. -/
theorem errors_returned_unreported (c : LayoutCall) : ∃ o, c.run.run.Reports o [] := by
  cases c with
  | frame k r => exact ⟨_, Checked.reports_map (k.reports_frame r) _⟩
  | frames k rs =>
      have hframes : ((k.frames rs : Checked (List (Except SetupError FrameLayout)))).run.Reports
          (.ok (rs.map k.frameSize)) [] :=
        (k.reports_frames rs).bind_silent (Traced.Reports.pure _)
      exact ⟨_, Checked.reports_map hframes _⟩
  | _ => exact ⟨_, reports_passed _ _⟩

/-- The byte stride of this frame needs 33 bits: the error is returned under a word that makes
misuse fatal too, and nothing is logged. -/
theorem wide_frame_not_reported :
    let c : LayoutCall := .frame .builtin ⟨.avc, .yuv420sp, false, 4294967295, 16, none, none⟩
    c.run.run.Yields .abort (.error (.invalidArgument (.exceeds .byteStride 4294967296))) ∧
      ¬ Checked.Reported c.run := by
  intro c
  have hsize : Calculator.builtin.frameSize ⟨.avc, .yuv420sp, false, 4294967295, 16, none, none⟩ =
      .error (.invalidArgument (.exceeds .byteStride 4294967296)) := by rfl
  have hrun : c.run.run.Reports
      (.error (.invalidArgument (.exceeds .byteStride 4294967296))) [] := by
    have h := Checked.reports_map (Calculator.builtin.reports_frame
      ⟨.avc, .yuv420sp, false, 4294967295, 16, none, none⟩) LayoutAnswer.layout
    rw [hsize] at h
    exact h
  refine ⟨hrun.yields .abort, ?_⟩
  rintro ⟨o, ho⟩
  obtain rfl := ho.eq_of_yields (hrun.yields .clear) rfl
  have herrors := (ho.returning .clear rfl).1
  rw [hrun.errors_eq_nil] at herrors
  cases herrors

end LayoutCall

end EncoderSetup
