import EncoderSetup.Proofs.Attribute.Reads
import EncoderSetup.Proofs.Attribute.Sessions

/-!
# Structures in blocks

A layout decodes a block of its size and refuses any other (`StructLayout.decode`). Reading a
structure from the store and from a slot both follow it, and setting one and writing one over a
pending block store the same bytes. So under every lawful layout a structure comes back by either
way, and what a staged session writes is what a set would have stored
(`Store.structs_round_trip`).
-/

namespace EncoderSetup

theorem ofLittleEndian_littleEndian (w : UInt16) :
    ofLittleEndian w.toUInt8 (w >>> 8).toUInt8 = w := by
  have hw := w.toNat_lt
  have hlow : w.toNat % 256 < 2 ^ 8 := Nat.mod_lt _ (by decide)
  have hhigh : w.toNat / 256 < 256 := by omega
  have hshifted : w.toNat / 256 * 2 ^ 8 < 2 ^ 16 := by omega
  refine UInt16.toNat_inj.mp ?_
  calc (ofLittleEndian w.toUInt8 (w >>> 8).toUInt8).toNat
      = w.toNat % 256 ||| (w.toNat / 256 % 256 * 2 ^ 8) % 2 ^ 16 := by
        simp only [ofLittleEndian, UInt16.toNat_or, UInt16.toNat_shiftLeft, UInt8.toNat_toUInt16,
          UInt16.toNat_toUInt8, UInt16.toNat_shiftRight, Nat.shiftLeft_eq,
          Nat.shiftRight_eq_div_pow]
        rfl
    _ = 2 ^ 8 * (w.toNat / 256) ||| w.toNat % 256 := by
        rw [Nat.mod_eq_of_lt hhigh, Nat.mod_eq_of_lt hshifted, Nat.or_comm, Nat.mul_comm]
    _ = 2 ^ 8 * (w.toNat / 256) + w.toNat % 256 := (Nat.two_pow_add_eq_or_of_lt hlow _).symm
    _ = w.toNat := by omega

theorem Region.layout_lawful : Region.layout.Lawful where
  write_eq_encode _ _ := rfl
  read_encode r := by
    change Region.mk (ofLittleEndian r.x.toUInt8 (r.x >>> 8).toUInt8)
      (ofLittleEndian r.y.toUInt8 (r.y >>> 8).toUInt8)
      (ofLittleEndian r.width.toUInt8 (r.width >>> 8).toUInt8)
      (ofLittleEndian r.height.toUInt8 (r.height >>> 8).toUInt8) = r
    simp only [ofLittleEndian_littleEndian]

theorem QuantizerRange.layout_lawful : QuantizerRange.layout.Lawful where
  write_eq_encode _ _ := rfl
  read_encode q := by
    change QuantizerRange.mk q.min q.max
      (ofLittleEndian q.initial.toUInt16.toUInt8 (q.initial.toUInt16 >>> 8).toUInt8).toInt16 = q
    rw [ofLittleEndian_littleEndian]
    rfl

theorem emptyLayout_lawful : emptyLayout.Lawful where
  write_eq_encode _ b := Subtype.ext (List.eq_nil_of_length_eq_zero b.property)
  read_encode _ := rfl

namespace Block

/-- The bytes as a block of this size, which the name of an attribute holds. -/
def sized (name : String) (size : Nat) (bytes : List UInt8) : Except SetupError (Block size) :=
  if h : bytes.length = size then .ok ⟨bytes, h⟩
  else .error (.invalidArgument (.structureLength name bytes.length size))

theorem gives_sized (name : String) (size : Nat) (bytes : List UInt8) :
    Checked.Gives (if h : bytes.length = size then pure ⟨bytes, h⟩
      else Checked.refuse (.invalidArgument (.structureLength name bytes.length size)))
      (sized name size bytes) := by
  unfold sized
  split
  · exact Checked.gives_pure _
  · exact Checked.gives_refuse _

end Block

namespace StructLayout

variable {α : Type} {layout : StructLayout α} {name : String} {bytes : List UInt8}

/-- What reading a structure from these bytes answers. -/
def decode (layout : StructLayout α) (name : String) (bytes : List UInt8) : Except SetupError α :=
  if h : bytes.length = layout.size then .ok (layout.read ⟨bytes, h⟩)
  else .error (.invalidArgument (.structureLength name bytes.length layout.size))

theorem read_sized (layout : StructLayout α) (name : String) (bytes : List UInt8) :
    layout.read <$> Block.sized name layout.size bytes = layout.decode name bytes := by
  unfold decode Block.sized
  split <;> rfl

theorem decode_encode (h : layout.Lawful) (name : String) (a : α) :
    layout.decode name (layout.encode a).val = .ok a := by
  rw [decode, dif_pos (layout.encode a).property]
  exact congrArg Except.ok (h.read_encode a)

theorem exists_decode_iff :
    (∃ b, layout.decode name bytes = .ok b) ↔ bytes.length = layout.size := by
  unfold decode
  split
  · next h => exact ⟨fun _ => h, fun _ => ⟨_, rfl⟩⟩
  · next h =>
      constructor
      · rintro ⟨_, he⟩
        cases he
      · intro he
        exact absurd he h

end StructLayout

/-! ## Reading structures -/

namespace Store

variable {α : Type} {s : Store} {name : String} {bytes : List UInt8}

theorem gives_fetch_of_block (hn : name ≠ "") (hv : s.value? name = some (.st bytes)) :
    Checked.Gives (s.fetch (List UInt8) name) (.ok bytes) := by
  have hread : s.readResult name .st = .ok (.st bytes) := by
    rw [readResult, if_neg hn, hv]
    rfl
  have hfetch := s.gives_fetch_bytes name
  rw [hread] at hfetch
  exact hfetch

theorem gives_fetchStruct (layout : StructLayout α) (hn : name ≠ "")
    (hv : s.value? name = some (.st bytes)) :
    Checked.Gives (s.fetchStruct layout name) (layout.decode name bytes) := by
  rw [← layout.read_sized]
  exact Checked.gives_map layout.read
    (Checked.gives_bind (gives_fetch_of_block hn hv) (Block.gives_sized name layout.size bytes))

/-- Setting a structure does not depend on what the store holds. -/
theorem gives_assignStruct (layout : StructLayout α) (hn : name ≠ "") (a : α) (s : Store) :
    Session.Gives (assignStruct layout name a) s
      (.ok (), s.put name (.st (layout.encode a).val)) := by
  have hset := gives_setValue name (.st (layout.encode a).val) s
  rwa [if_neg hn] at hset

end Store

namespace Slot

variable {α : Type} {slot slot' : Slot} {bytes : List UInt8} {flags : DebugFlags}

/-- What looking for a block of this size in a slot answers. -/
def blockResult (slot : Slot) (size : Nat) : Except SetupError (Block size) :=
  match slot.value with
  | .st bytes => Block.sized slot.name size bytes
  | v => .error (.typeMismatch slot.name v.kind .st)

theorem gives_fetchBlock (slot : Slot) (size : Nat) :
    Checked.Gives (slot.fetchBlock size) (slot.blockResult size) := by
  obtain ⟨name, v⟩ := slot
  cases v with
  | st bytes =>
      exact Checked.gives_bind (Checked.gives_pure bytes) (Block.gives_sized name size bytes)
  | _ => exact Checked.gives_bind_of_error (Checked.gives_refuse _)

theorem gives_fetchStruct (layout : StructLayout α) (hv : slot.value = .st bytes) :
    Checked.Gives (slot.fetchStruct layout) (layout.decode slot.name bytes) := by
  have hblock := gives_fetchBlock slot layout.size
  rw [blockResult, hv] at hblock
  rw [← layout.read_sized]
  exact Checked.gives_map layout.read hblock

/-! ## Writing structures -/

/-- What writing a structure answers, and the slot it leaves. -/
def writeResult (layout : StructLayout α) (a : α) (slot : Slot) :
    Except SetupError EditAnswer × Slot :=
  match slot.blockResult layout.size with
  | .ok _ => (.ok .done, ⟨slot.name, .st (layout.encode a).val⟩)
  | .error e => (.error e, slot)

theorem gives_writeStruct {layout : StructLayout α} (h : layout.Lawful) (a : α) (slot : Slot) :
    Session.Gives (edit (.writeStruct layout a)) slot (slot.writeResult layout a) := by
  have hblock := gives_fetchBlock slot layout.size
  unfold writeResult
  cases hb : slot.blockResult layout.size with
  | error e =>
      rw [hb] at hblock
      exact Session.gives_get_bind (Session.gives_checked_bind_of_error hblock)
  | ok b =>
      rw [hb] at hblock
      refine Session.gives_get_bind (Session.gives_checked_bind hblock ?_)
      refine Session.gives_modify_bind ?_
      rw [h.write_eq_encode]
      exact Session.gives_pure _

theorem writeResult_of_length (layout : StructLayout α) (a : α) (hv : slot.value = .st bytes)
    (h : bytes.length = layout.size) :
    slot.writeResult layout a = (.ok .done, ⟨slot.name, .st (layout.encode a).val⟩) := by
  have hb : slot.blockResult layout.size = .ok ⟨bytes, h⟩ := by
    rw [blockResult, hv]
    exact dif_pos h
  rw [writeResult, hb]

theorem writeResult_of_ne (layout : StructLayout α) (a : α) (hv : slot.value = .st bytes)
    (h : bytes.length ≠ layout.size) : slot.writeResult layout a =
      (.error (.invalidArgument (.structureLength slot.name bytes.length layout.size)), slot) := by
  have hb : slot.blockResult layout.size =
      .error (.invalidArgument (.structureLength slot.name bytes.length layout.size)) := by
    rw [blockResult, hv]
    exact dif_neg h
  rw [writeResult, hb]

theorem value_of_written {layout : StructLayout α} (h : layout.Lawful) {a : α} {answer : EditAnswer}
    (hw : (edit (.writeStruct layout a)).Leads flags slot (.ok answer) slot') :
    slot' = ⟨slot.name, .st (layout.encode a).val⟩ := by
  have hresult := ((gives_writeStruct h a slot flags _ _).mp hw).1
  unfold writeResult at hresult
  split at hresult
  · exact (Prod.mk.inj hresult).2
  · cases (Prod.mk.inj hresult).1

/-- The edit at one place of a session, and what it was done on. -/
theorem yields_edits_split {before after : List Edit} {e : Edit}
    {answers : List (Except SetupError EditAnswer)}
    (h : (edits (before ++ e :: after) slot).Yields flags (answers, slot')) :
    ∃ o slot₁, answers[before.length]? = some o ∧
      (edit e).Leads flags ⟨slot.name, Edit.applyAll before slot.value⟩ o slot₁ ∧
      slot' = ⟨slot₁.name, Edit.applyAll after slot₁.value⟩ := by
  induction before generalizing slot answers with
  | nil =>
      obtain ⟨o, slot₁, more, he, hrest, rfl⟩ := Session.yields_runEach_cons.mp h
      exact ⟨o, slot₁, rfl, he, yields_edits hrest⟩
  | cons d before ih =>
      obtain ⟨o, slot₁, more, hd, hrest, rfl⟩ := Session.yields_runEach_cons.mp h
      obtain rfl := leads_edit hd
      exact ih hrest

end Slot

namespace Store

variable {α : Type} {s s' : Store} {k : String} {bytes : List UInt8} {flags : DebugFlags}

theorem exists_leads_openSlot {v : Value} (hn : k ≠ "") (hv : s.slot? k = some v)
    (flags : DebugFlags) : ∃ s', (openSlot k).Leads flags s (.ok ⟨k, v⟩) s' := by
  have hempty : ¬ k.isEmpty = true := by simpa using hn
  rw [slot?, if_neg hempty] at hv
  have hname : (checkName k).run.Yields flags (.ok ()) := (gives_checkName hn).yields_ok.mpr rfl
  simp only [openSlot, Session.leads_checked_bind, Session.leads_get_bind]
  cases hp : s.pending.get? k with
  | some w =>
      obtain rfl : w = v := by simpa [hp] using hv
      exact ⟨s, Or.inl ⟨(), hname, Session.leads_pure.mpr ⟨rfl, rfl⟩⟩⟩
  | none =>
      have hc : s.committed.get? k = some v := by simpa [hp] using hv
      simp only [hc, Session.leads_modify_bind]
      exact ⟨_, Or.inl ⟨(), hname, Session.leads_pure.mpr ⟨rfl, rfl⟩⟩⟩

/-- A slot on a committed block holds a block of its length, whatever edits were made. -/
theorem block_of_slot (h : s.WellFormed) (hv : s.value? k = some (.st bytes)) {v : Value}
    (hslot : s.slot? k = some v) (edits : List Edit) :
    ∃ bytes', Edit.applyAll edits v = .st bytes' ∧ bytes'.length = bytes.length := by
  obtain ⟨u, hu, hfits⟩ := h.slot_fits hslot
  obtain rfl : u = .st bytes := Option.some.inj (hu.symm.trans hv)
  obtain ⟨hkind, hlength⟩ := (Edit.fits_applyAll edits v).trans hfits
  cases hvalue : Edit.applyAll edits v with
  | st bytes' =>
      rw [hvalue] at hlength
      exact ⟨bytes', rfl, Option.some.inj hlength⟩
  | _ =>
      rw [hvalue] at hkind
      cases hkind

/-- A structure that was written, with no change after it, is what the session leaves pending. -/
theorem pending_of_written {layout : StructLayout α} (hl : layout.Lawful) {a : α}
    {before after : List Edit} {answers : List (Except SetupError EditAnswer)} {answer : EditAnswer}
    (h : (stage k (before ++ .writeStruct layout a :: after)).Leads flags s (.ok answers) s')
    (hanswer : answers[before.length]? = some (.ok answer))
    (hafter : after.any Edit.changes = false) :
    s'.pending.get? k = some (.st (layout.encode a).val) := by
  obtain ⟨v, slot, -, hedits, rfl⟩ := leads_stage_ok h
  obtain ⟨o, slot₁, ho, hwrite, rfl⟩ := Slot.yields_edits_split hedits
  obtain rfl := Option.some.inj (hanswer.symm.trans ho)
  obtain rfl := Slot.value_of_written hl hwrite
  rw [Edit.applyAll_of_not_changes hafter]
  exact SortedMap.get?_insert_self _ _ _

/-- A structure that was refused may as well not have been written. -/
theorem stage_of_refused {layout : StructLayout α} {a : α} {before after : List Edit}
    {answers : List (Except SetupError EditAnswer)} {e : SetupError}
    (h : (stage k (before ++ .writeStruct layout a :: after)).Leads flags s (.ok answers) s')
    (hanswer : answers[before.length]? = some (.error e)) :
    s' = (Call.stage k (before ++ after)).after s := by
  obtain ⟨v, slot, hv, hedits, rfl⟩ := leads_stage_ok h
  obtain ⟨o, slot₁, ho, hwrite, rfl⟩ := Slot.yields_edits_split hedits
  obtain rfl := Option.some.inj (hanswer.symm.trans ho)
  obtain rfl := Slot.leads_edit_error hwrite
  rw [Call.after, hv]
  simp only [Edit.applyAll, List.foldl_append]

/-- A structure comes back from the store under this name, by a set and by a staged session. -/
structure KeepsStruct (layout : StructLayout α) (a : α) (k : String) (s : Store) : Prop where
  set : Session.Gives (assignStruct layout k a) s (.ok (), s.put k (.st (layout.encode a).val))
  read_set : Checked.Gives ((s.put k (.st (layout.encode a).val)).fetchStruct layout k) (.ok a)
  bytes_set : Checked.Gives ((s.put k (.st (layout.encode a).val)).fetch (List UInt8) k)
    (.ok (layout.encode a).val)
  length_set : (layout.encode a).val.length = layout.size
  read : ∀ bytes, s.value? k = some (.st bytes) →
    Checked.Gives (s.fetchStruct layout k) (layout.decode k bytes)
  opens : ∀ bytes, s.value? k = some (.st bytes) → ∀ flags,
    ∃ slot s', (openSlot k).Leads flags s (.ok slot) s'
  read_slot : ∀ bytes, s.value? k = some (.st bytes) → ∀ flags slot s',
    (openSlot k).Leads flags s (.ok slot) s' → ∀ edits answers slot',
      (Slot.edits edits slot).Yields flags (answers, slot') →
        ∃ bytes', slot'.value = .st bytes' ∧ bytes'.length = bytes.length ∧
          Checked.Gives (slot'.fetchStruct layout) (layout.decode k bytes')
  write : ∀ slot bytes, slot.value = .st bytes → bytes.length = layout.size →
    Session.Gives (Slot.edit (.writeStruct layout a)) slot
        (.ok .done, ⟨slot.name, .st (layout.encode a).val⟩) ∧
      Checked.Gives (Slot.fetchStruct layout ⟨slot.name, .st (layout.encode a).val⟩) (.ok a)
  write_refused : ∀ slot bytes, slot.value = .st bytes → bytes.length ≠ layout.size →
    Session.Gives (Slot.edit (.writeStruct layout a)) slot
      (.error (.invalidArgument (.structureLength slot.name bytes.length layout.size)), slot)
  /-- Until the commit the session is not seen. -/
  unseen : ∀ flags edits o s', (stage k edits).Leads flags s o s' → s'.committed = s.committed ∧
    ∀ {β : Type} (layout' : StructLayout β), s'.fetchStruct layout' k = s.fetchStruct layout' k
  /-- A commit writes what a set would have stored. -/
  committed : ∀ flags before after answers answer s', after.any Edit.changes = false →
    (stage k (before ++ .writeStruct layout a :: after)).Leads flags s (.ok answers) s' →
    answers[before.length]? = some (.ok answer) → ∀ between answers' s₂,
      (∀ c ∈ between, c.Spares k) → (Call.runAll between s').Yields flags (answers', s₂) →
        ∃ s₃, commitPending.Leads flags s₂ (.ok s₂.pending.size) s₃ ∧
          s₃.value? k = some (.st (layout.encode a).val) ∧
          Checked.Gives (s₃.fetchStruct layout k) (.ok a)
  refused : ∀ flags before after answers e s',
    (stage k (before ++ .writeStruct layout a :: after)).Leads flags s (.ok answers) s' →
    answers[before.length]? = some (.error e) → s' = (Call.stage k (before ++ after)).after s

theorem committed_of_stage {edits : List Edit}
    {o : Except SetupError (List (Except SetupError EditAnswer))}
    (h : (stage k edits).Leads flags s o s') : s'.committed = s.committed := by
  obtain ⟨_, _, -, -, rfl⟩ | ⟨-, -, rfl⟩ := leads_stage h <;> rfl

/-- In every reachable store, under every layout whose writing determines all bytes and whose
reading undoes it: what was set is read back, a block is read as a structure just where its length
is the layout's size, and a structure that is written in a staged session is read back from the slot
at once and from the store after the commit, as if it had been set. -/
theorem structs_round_trip (h : s.Reachable) {layout : StructLayout α} (hl : layout.Lawful)
    (hk : k ≠ "") (a : α) : s.KeepsStruct layout a k ∧ ∀ bytes : List UInt8,
      ((∃ b, layout.decode k bytes = .ok b) ↔ bytes.length = layout.size) ∧
      (bytes.length ≠ layout.size → layout.decode k bytes =
        .error (.invalidArgument (.structureLength k bytes.length layout.size))) := by
  have hstored : ∀ t : Store, t.value? k = some (.st (layout.encode a).val) →
      Checked.Gives (t.fetchStruct layout k) (.ok a) := fun t ht => by
    rw [← layout.decode_encode hl k a]
    exact gives_fetchStruct layout hk ht
  have hput : (s.put k (.st (layout.encode a).val)).value? k = some (.st (layout.encode a).val) :=
    SortedMap.get?_insert_self _ _ _
  refine ⟨?_, fun bytes => ⟨StructLayout.exists_decode_iff, fun hne => dif_neg hne⟩⟩
  exact
    { set := gives_assignStruct layout hk a s
      read_set := hstored _ hput
      bytes_set := gives_fetch_of_block hk hput
      length_set := (layout.encode a).property
      read := fun bytes hv => gives_fetchStruct layout hk hv
      opens := fun bytes hv flags => by
        obtain ⟨v, hslot⟩ := h.wellFormed.exists_slot (Option.isSome_iff_exists.mpr ⟨_, hv⟩)
        obtain ⟨s', hopen⟩ := exists_leads_openSlot hk hslot flags
        exact ⟨_, s', hopen⟩
      read_slot := fun bytes hv flags slot s' hopen edits answers slot' hedits => by
        obtain ⟨v, hslot, ho, -⟩ | ⟨-, ⟨_, he⟩, -⟩ := leads_openSlot hopen
        · obtain rfl := Except.ok.inj ho
          obtain rfl := Slot.yields_edits hedits
          obtain ⟨bytes', hvalue, hlength⟩ := block_of_slot h.wellFormed hv hslot edits
          exact ⟨bytes', hvalue, hlength, Slot.gives_fetchStruct layout hvalue⟩
        · cases he
      write := fun slot bytes hv hlength => by
        rw [← Slot.writeResult_of_length layout a hv hlength, ← layout.decode_encode hl slot.name a]
        exact ⟨Slot.gives_writeStruct hl a slot, Slot.gives_fetchStruct layout rfl⟩
      write_refused := fun slot bytes hv hlength => by
        rw [← Slot.writeResult_of_ne layout a hv hlength]
        exact Slot.gives_writeStruct hl a slot
      unseen := fun flags edits o s' hstage => by
        have hcommitted := committed_of_stage hstage
        refine ⟨hcommitted, fun layout' => ?_⟩
        rw [fetchStruct, fetchStruct, fetchBlock, fetchBlock, fetch, fetch, lookup, lookup, value?,
          value?, hcommitted]
      committed := fun flags before after answers answer s' hafter hstage hanswer between answers'
          s₂ hbetween hrun => by
        have hpending := pending_of_written hl hstage hanswer hafter
        have hkept : s₂.pending.get? k = some (.st (layout.encode a).val) := by
          rw [Call.yields_runAll hrun]
          exact Call.pending_afterAll_of_spares hbetween hpending
        have hvalue : s₂.commit.value? k = some (.st (layout.encode a).val) := by
          rw [value?, commit, SortedMap.get?_merge, hkept, Option.some_or]
        exact ⟨s₂.commit, leads_commitPending.mpr ⟨rfl, rfl⟩, hvalue, hstored _ hvalue⟩
      refused := fun flags before after answers e s' => stage_of_refused }

/-- A region that is written over eight zero bytes, and a structure without bytes, which is not. -/
theorem region_round_trip :
    let r : Region := ⟨16, 32, 64, 48⟩
    let zeros : List UInt8 := List.replicate 8 0
    let s := Store.empty.put "roi.regions" (.st zeros)
    ∃ answers s', (stage "roi.regions" [.kind, .writeStruct Region.layout r, .name]).Leads .clear s
        (.ok answers) s' ∧
      (s'.fetchStruct Region.layout "roi.regions").run.Yields .clear (.ok ⟨0, 0, 0, 0⟩) ∧
      (∃ s₃, commitPending.Leads .clear s' (.ok 1) s₃ ∧
        (s₃.fetchStruct Region.layout "roi.regions").run.Yields .clear (.ok r)) ∧
      (s.fetchStruct emptyLayout "roi.regions").run.Yields .clear
        (.error (.invalidArgument (.structureLength "roi.regions" 8 0))) ∧
      (Slot.edit (.writeStruct emptyLayout ())).Leads .clear ⟨"roi.regions", .st zeros⟩
        (.error (.invalidArgument (.structureLength "roi.regions" 8 0)))
        ⟨"roi.regions", .st zeros⟩ := by
  intro r zeros s
  have hset : (Call.set "roi.regions" (.st zeros)).run.Leads .clear .empty (.ok .done) s := by rfl
  have hs : s.Reachable := Reachable.empty.call hset
  have hclear : ∀ {β : Type} (o : Except SetupError β), Traced.Returns .clear o :=
    Traced.returns_of_not_abort rfl
  have hname : "roi.regions" ≠ "" := by decide
  obtain ⟨hregion, -⟩ := structs_round_trip hs Region.layout_lawful hname r
  obtain ⟨hunit, hdecode⟩ := structs_round_trip hs emptyLayout_lawful hname ()
  have hstage : (stage "roi.regions"
        [.kind, .writeStruct Region.layout ⟨16, 32, 64, 48⟩, .name]).Leads .clear
      (Store.empty.put "roi.regions" (.st (List.replicate 8 0)))
      (.ok [.ok (.kind .st), .ok .done, .ok (.name "roi.regions")])
      ((Store.empty.put "roi.regions" (.st (List.replicate 8 0))).putPending "roi.regions"
        (.st (Region.layout.encode ⟨16, 32, 64, 48⟩).val)) := by rfl
  have hzeros : Region.layout.decode "roi.regions" (List.replicate 8 0) = .ok ⟨0, 0, 0, 0⟩ := by rfl
  refine ⟨_, _, hstage, ?_, ?_, ?_, ?_⟩
  · rw [(hregion.unseen _ _ _ _ hstage).2 Region.layout]
    exact (hregion.read zeros (by decide) .clear _).mpr ⟨hzeros.symm, hclear _⟩
  · obtain ⟨s₃, hcommit, -, hread⟩ := hregion.committed .clear [.kind] [.name] _ .done _ rfl hstage
      rfl [] [] _ nofun (by rfl)
    exact ⟨s₃, hcommit, (hread .clear _).mpr ⟨rfl, hclear _⟩⟩
  · exact (hunit.read zeros (by decide) .clear _).mpr
      ⟨((hdecode zeros).2 (by decide)).symm, hclear _⟩
  · exact (hunit.write_refused _ zeros rfl (by decide) .clear _ _).mpr ⟨rfl, hclear _⟩

end Store

end EncoderSetup
