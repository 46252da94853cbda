import EncoderSetup.Proofs.Frame.Table

/-!
# Which error answers a call

A call looks up what it needs before it computes: the coding type, then the pixel format, then the
compression of the format. `GeometryTable.Lacks` is the first of them that the table does not have,
and it alone is answered as unsupported, whatever the sizes and the suggestions are. A covered frame
without pixels is answered by zeros before any arithmetic; all that can fail after that is misuse
(`Calculator.errors_classified`).
-/

namespace EncoderSetup

namespace GeometryTable

variable {t : GeometryTable} {c : Coding} {f : PixelFormat} {compressed : Bool} {e : SetupError}

/-- The first entry that a table lacks for a coding type and a pixel format. -/
inductive Lacks (t : GeometryTable) (c : Coding) (f : PixelFormat) (compressed : Bool) :
    Unsupported → Prop
  | coding (hc : t.coding.get? c = none) : Lacks t c f compressed (.coding c)
  | format {rule : CodingRule} (hc : t.coding.get? c = some rule) (hf : t.formats.get? f = none) :
      Lacks t c f compressed (.format f)
  | compression {rule : CodingRule} {r : FormatRule} (hc : t.coding.get? c = some rule)
      (hf : t.formats.get? f = some r) (hcomp : compressed = true) (hx : r.compression = none) :
      Lacks t c f compressed (.compression f)

theorem exists_lacks_iff : (∃ u, t.Lacks c f compressed u) ↔
    t.coding.get? c = none ∨ t.formats.get? f = none ∨
      compressed = true ∧ ∃ r, t.formats.get? f = some r ∧ r.compression = none := by
  constructor
  · rintro ⟨u, hc | ⟨-, hf⟩ | ⟨-, hf, hcomp, hx⟩⟩
    · exact Or.inl hc
    · exact Or.inr (Or.inl hf)
    · exact Or.inr (Or.inr ⟨hcomp, _, hf, hx⟩)
  · intro h
    cases hc : t.coding.get? c with
    | none => exact ⟨_, .coding hc⟩
    | some rule =>
        obtain hn | hf | ⟨hcomp, r, hf, hx⟩ := h
        · rw [hc] at hn
          cases hn
        · exact ⟨_, .format hc hf⟩
        · exact ⟨_, .compression hc hf hcomp hx⟩

theorem codingRule_eq_error_iff : t.codingRule c = .error e ↔
    ∃ u, e = .unsupportedFormat u ∧ t.coding.get? c = none ∧ u = .coding c := by
  unfold codingRule
  cases t.coding.get? c <;> simp [eq_comm]

end GeometryTable

/-- Every error is one of those allowed. -/
def FailsOnly {α : Type} (allowed : SetupError → Prop) (x : Except SetupError α) : Prop :=
  ∀ e, x = .error e → allowed e

namespace FailsOnly

variable {α β : Type} {allowed : SetupError → Prop}

theorem ok (a : α) : FailsOnly allowed (.ok a) := by
  intro e he
  cases he

theorem bind {x : Except SetupError α} {f : α → Except SetupError β} (hx : FailsOnly allowed x)
    (hf : ∀ a, FailsOnly allowed (f a)) : FailsOnly allowed (x >>= f) := by
  intro e he
  obtain he | ⟨a, -, he⟩ := bind_eq_error_iff.mp he
  · exact hx e he
  · exact hf a e he

end FailsOnly

/-- Every error is one of misuse. -/
abbrev OnlyMisuse {α : Type} : Except SetupError α → Prop :=
  FailsOnly fun e => ∃ cause, e = .invalidArgument cause

namespace OnlyMisuse

theorem narrow (q : Quantity) (v : UInt64) : OnlyMisuse (Stride.narrow q v) := by
  intro e he
  unfold Stride.narrow at he
  split at he
  · cases he
  · exact ⟨_, (Except.error.inj he).symm⟩

theorem checked (q : Quantity) (o : Option UInt64) : OnlyMisuse (Stride.checked q o) := by
  intro e he
  cases o with
  | some v => cases he
  | none => exact ⟨_, (Except.error.inj he).symm⟩

end OnlyMisuse

/-- Every error is of a kind that a calculator answers. -/
abbrev Refuses {α : Type} : Except SetupError α → Prop :=
  FailsOnly fun e => (∃ cause, e = .unsupportedFormat cause) ∨ ∃ cause, e = .invalidArgument cause

/-- What is lacking is answered first, then the zero of an empty frame, then misuse. -/
structure AnswersInOrder {α : Type} (x : Except SetupError α) (Lacks : Unsupported → Prop)
    (Empty : Prop) (zero : α) : Prop where
  unsupported_iff : ∀ u, x = .error (.unsupportedFormat u) ↔ Lacks u
  zero_of_empty : (∀ u, ¬ Lacks u) → Empty → x = .ok zero
  misuse_otherwise : ∀ e, x = .error e → (∀ u, e ≠ .unsupportedFormat u) →
    ∃ cause, e = .invalidArgument cause

namespace AnswersInOrder

variable {α β : Type} {Lacks : Unsupported → Prop} {Empty : Prop} {zero : α}

/-- A call that looks up its rules, then asks whether there is anything to compute. -/
theorem of_lookup [Decidable Empty] {look : Except SetupError β} {rest : β → Except SetupError α}
    (hlook : ∀ e, look = .error e ↔ ∃ u, e = .unsupportedFormat u ∧ Lacks u)
    (hrest : ∀ b, look = .ok b → OnlyMisuse (rest b)) :
    AnswersInOrder (look >>= fun b => if Empty then .ok zero else rest b) Lacks Empty zero := by
  cases hb : look with
  | error e =>
      obtain ⟨v, rfl, hv⟩ := (hlook e).mp hb
      have hunique (u) : v = u ↔ Lacks u := by
        have hu := hlook (.unsupportedFormat u)
        rw [hb] at hu
        simpa using hu
      exact
        { unsupported_iff := fun u => by
            rw [error_bind, Except.error.injEq, SetupError.unsupportedFormat.injEq, hunique]
          zero_of_empty := fun hcovered _ => absurd hv (hcovered v)
          misuse_otherwise := fun e he hne => absurd (Except.error.inj he).symm (hne v) }
  | ok b =>
      have hcovered (u) : ¬ Lacks u := by
        intro hu
        have he := (hlook _).mpr ⟨u, rfl, hu⟩
        rw [hb] at he
        cases he
      have hmisuse : OnlyMisuse (if Empty then .ok zero else rest b) := by
        split
        · exact FailsOnly.ok zero
        · exact hrest b hb
      exact
        { unsupported_iff := fun u => by
            refine iff_of_false ?_ (hcovered u)
            intro he
            obtain ⟨cause, hcause⟩ := hmisuse _ he
            cases hcause
          zero_of_empty := fun _ hempty => if_pos hempty
          misuse_otherwise := fun e he _ => hmisuse e he }

theorem onlyMisuse {x : Except SetupError α} (h : AnswersInOrder x Lacks Empty zero)
    (hcovered : ∀ u, ¬ Lacks u) : OnlyMisuse x := by
  intro e he
  apply h.misuse_otherwise e he
  rintro u rfl
  exact hcovered u ((h.unsupported_iff u).mp he)

theorem refuses {x : Except SetupError α} (h : AnswersInOrder x Lacks Empty zero) : Refuses x := by
  intro e he
  by_cases hu : ∃ cause, e = .unsupportedFormat cause
  · exact Or.inl hu
  · exact Or.inr (h.misuse_otherwise e he (not_exists.mp hu))

end AnswersInOrder

namespace Calculator

variable {k : Calculator} {c : Coding} {f : PixelFormat} {compressed : Bool} {rule : FormatRule}

theorem supported_of_lacks {u : Unsupported} (h : k.table.Lacks c f compressed u) :
    k.supported c f compressed = .error (.unsupportedFormat u) := by
  unfold supported
  cases h with
  | coding hc =>
      have hcoding := GeometryTable.codingRule_eq_error_iff.mpr ⟨_, rfl, hc, rfl⟩
      rw [hcoding, error_bind]
  | format hc hf =>
      have hformat : k.table.formatRule f = .error (.unsupportedFormat (.format f)) := by
        rw [GeometryTable.formatRule, hf]
      rw [GeometryTable.codingRule_eq_ok_iff.mpr hc, ok_bind, hformat, error_bind]
  | compression hc hf hcomp hx =>
      have hformat := GeometryTable.formatRule_eq_ok_iff.mpr hf
      have hcompression : k.table.compressionRule f =
          .error (.unsupportedFormat (.compression f)) := by
        rw [GeometryTable.compressionRule, hformat, ok_bind, hx]
      rw [GeometryTable.codingRule_eq_ok_iff.mpr hc, ok_bind, hformat, ok_bind, if_pos hcomp,
        hcompression, error_bind]

theorem exists_lacks_of_error {e : SetupError} (he : k.supported c f compressed = .error e) :
    ∃ u, k.table.Lacks c f compressed u := by
  by_contra hnone
  rw [GeometryTable.exists_lacks_iff] at hnone
  push Not at hnone
  obtain ⟨hc, hf, hcomp⟩ := hnone
  obtain ⟨rule, hc⟩ := Option.ne_none_iff_exists'.mp hc
  obtain ⟨r, hf⟩ := Option.ne_none_iff_exists'.mp hf
  have hok : k.supported c f compressed = .ok r :=
    supported_eq_ok_iff.mpr
      ⟨⟨rule, hc⟩, hf, fun h => Option.ne_none_iff_exists'.mp (hcomp h r hf)⟩
  rw [hok] at he
  cases he

theorem supported_eq_error_iff {e : SetupError} : k.supported c f compressed = .error e ↔
    ∃ u, e = .unsupportedFormat u ∧ k.table.Lacks c f compressed u := by
  constructor
  · intro he
    obtain ⟨u, hu⟩ := exists_lacks_of_error he
    exact ⟨u, Except.error.inj (he.symm.trans (supported_of_lacks hu)), hu⟩
  · rintro ⟨u, rfl, hu⟩
    exact supported_of_lacks hu

theorem not_lacks_of_supported (hs : k.supported c f compressed = .ok rule) (u : Unsupported) :
    ¬ k.table.Lacks c f compressed u := by
  intro hu
  rw [supported_of_lacks hu] at hs
  cases hs

theorem pixelStride_in_order (k : Calculator) (r : PixelStrideRequest) :
    AnswersInOrder (k.pixelStride r) (k.table.Lacks r.coding r.format r.compressed)
      (r.width = 0) 0 := by
  apply AnswersInOrder.of_lookup (fun _ => supported_eq_error_iff)
  intro rule _
  split
  · exact FailsOnly.ok _
  · exact OnlyMisuse.narrow _ _

theorem byteStride_in_order (k : Calculator) (r : ByteStrideRequest) :
    AnswersInOrder (k.byteStride r) (k.table.Lacks r.coding r.format r.compressed)
      (r.width = 0) 0 := by
  apply AnswersInOrder.of_lookup (fun _ => supported_eq_error_iff)
  intro rule _
  split
  · exact OnlyMisuse.narrow _ _
  · exact (OnlyMisuse.checked _ _).bind fun _ => OnlyMisuse.narrow _ _

theorem verticalStride_in_order (k : Calculator) (r : VerticalStrideRequest) :
    AnswersInOrder (k.verticalStride r)
      (fun u => k.table.coding.get? r.coding = none ∧ u = .coding r.coding) (r.height = 0) 0 := by
  apply AnswersInOrder.of_lookup (fun _ => GeometryTable.codingRule_eq_error_iff)
  intro rule _
  exact OnlyMisuse.narrow _ _

theorem onlyMisuse_plainLayout (p b v : UInt32) : OnlyMisuse (plainLayout rule p b v) :=
  (OnlyMisuse.checked _ _).bind fun _ => (OnlyMisuse.narrow _ _).bind fun _ => FailsOnly.ok _

theorem onlyMisuse_compressedLayout {x : CompressionRule} (hx : k.table.compressionRule f = .ok x)
    (p b v : UInt32) : OnlyMisuse (k.compressedLayout f p b v) := by
  unfold compressedLayout
  rw [hx, ok_bind]
  apply (OnlyMisuse.checked _ _).bind
  intro header
  apply (OnlyMisuse.checked _ _).bind
  intro body
  apply (OnlyMisuse.narrow _ _).bind
  intro totalSize
  apply (OnlyMisuse.narrow _ _).bind
  intro headerSize
  apply (OnlyMisuse.narrow _ _).bind
  intro bodySize
  exact (OnlyMisuse.narrow _ _).bind fun bodyOffset => FailsOnly.ok _

/-- A layout asks for its strides by calls of their own, which look up again what is there. -/
theorem onlyMisuse_layout {r : FrameRequest}
    (hs : k.supported r.coding r.format r.compressed = .ok rule) :
    OnlyMisuse (k.layout r rule) := by
  have hcovered := not_lacks_of_supported hs
  obtain ⟨⟨coding, hc⟩, hf, hcompression⟩ := supported_eq_ok_iff.mp hs
  apply ((k.byteStride_in_order r.forByteStride).onlyMisuse hcovered).bind
  intro b
  apply ((k.verticalStride_in_order r.forVerticalStride).onlyMisuse ?_).bind
  · intro v
    apply ((k.pixelStride_in_order (r.forPixelStride b)).onlyMisuse hcovered).bind
    intro p
    by_cases hcomp : r.compressed = true
    · obtain ⟨x, hx⟩ := hcompression hcomp
      rw [if_pos hcomp]
      exact onlyMisuse_compressedLayout (GeometryTable.compressionRule_eq_ok_iff.mpr ⟨_, hf, hx⟩)
        p b v
    · rw [if_neg hcomp]
      exact onlyMisuse_plainLayout p b v
  · rintro u ⟨hnone, -⟩
    exact Option.some_ne_none coding (hc.symm.trans hnone)

theorem frameSize_in_order (k : Calculator) (r : FrameRequest) :
    AnswersInOrder (k.frameSize r) (k.table.Lacks r.coding r.format r.compressed)
      (r.width = 0 ∨ r.height = 0) .zero := by
  apply AnswersInOrder.of_lookup (fun _ => supported_eq_error_iff)
  intro rule hs
  exact onlyMisuse_layout hs

/-- Each of the four calls refuses what the table lacks, by the first entry that is lacking and by
nothing else; answers an empty frame with zeros; and fails otherwise only by misuse. -/
theorem errors_classified (k : Calculator) :
    (∀ c f compressed, (∃ u, k.table.Lacks c f compressed u) ↔
      k.table.coding.get? c = none ∨ k.table.formats.get? f = none ∨
        compressed = true ∧ ∃ r, k.table.formats.get? f = some r ∧ r.compression = none) ∧
    (∀ r : PixelStrideRequest, AnswersInOrder (k.pixelStride r)
      (k.table.Lacks r.coding r.format r.compressed) (r.width = 0) 0) ∧
    (∀ r : ByteStrideRequest, AnswersInOrder (k.byteStride r)
      (k.table.Lacks r.coding r.format r.compressed) (r.width = 0) 0) ∧
    (∀ r : VerticalStrideRequest, AnswersInOrder (k.verticalStride r)
      (fun u => k.table.coding.get? r.coding = none ∧ u = .coding r.coding) (r.height = 0) 0) ∧
    ∀ r : FrameRequest, AnswersInOrder (k.frameSize r)
      (k.table.Lacks r.coding r.format r.compressed) (r.width = 0 ∨ r.height = 0) .zero :=
  ⟨fun _ _ _ => GeometryTable.exists_lacks_iff, k.pixelStride_in_order, k.byteStride_in_order,
    k.verticalStride_in_order, k.frameSize_in_order⟩

end Calculator

end EncoderSetup
