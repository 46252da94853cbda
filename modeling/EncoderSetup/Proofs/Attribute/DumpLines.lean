import EncoderSetup.Proofs.Attribute.Listings
import EncoderSetup.Proofs.Text.Numerals
import Mathlib.Data.List.Chain
import Mathlib.Data.List.DropRight

/-!
# The lines of a listing

A value is printed without a newline, and a name is printed as it is. So the dump has one line for
each committed entry exactly where no committed name has a newline in it (`Store.dump_isLines_iff`);
a line then reads as the entry that it was printed for and as no other, up to the spaces that fill
the column of names. A name with a newline makes lines of its own, and one of them may read as an
entry that the store does not have (`Store.broken_name_adds_line`).
-/

namespace EncoderSetup

/-- The text is these lines, each ended by one newline and without any other. -/
structure IsLines (lines : List String) (text : String) : Prop where
  plain : ∀ l ∈ lines, '\n' ∉ l.toList
  toList_eq : text.toList = lines.flatMap fun l => l.toList ++ ['\n']

theorem takeWhile_line {l rest : List Char} (h : '\n' ∉ l) :
    (l ++ '\n' :: rest).takeWhile (· != '\n') = l := by
  have hall : ∀ c ∈ l, (c != '\n') = true := fun c hc => by
    rw [bne_iff_ne]
    rintro rfl
    exact h hc
  rw [List.takeWhile_append_of_pos hall, List.takeWhile_cons_of_neg (by decide), List.append_nil]

theorem flatMap_lines_inj {ls ms : List String} (hl : ∀ l ∈ ls, '\n' ∉ l.toList)
    (hm : ∀ m ∈ ms, '\n' ∉ m.toList)
    (h : (ls.flatMap fun l => l.toList ++ ['\n']) = ms.flatMap fun m => m.toList ++ ['\n']) :
    ls = ms := by
  induction ls generalizing ms with
  | nil =>
      cases ms with
      | nil => rfl
      | cons m ms => simp at h
  | cons l ls ih =>
      cases ms with
      | nil => simp at h
      | cons m ms =>
          have hl := List.forall_mem_cons.mp hl
          have hm := List.forall_mem_cons.mp hm
          simp only [List.flatMap_cons, List.append_assoc, List.singleton_append] at h
          have hhead : l.toList = m.toList := by rw [← takeWhile_line hl.1, h, takeWhile_line hm.1]
          rw [hhead, List.append_cancel_left_eq, List.cons.injEq] at h
          rw [String.toList_inj.mp hhead, ih hl.2 hm.2 h.2]

/-- A text has its lines in one way. -/
theorem IsLines.eq {ls ms : List String} {text : String} (h : IsLines ls text)
    (h' : IsLines ms text) : ls = ms :=
  flatMap_lines_inj h.plain h'.plain (h.toList_eq.symm.trans h'.toList_eq)

theorem count_flatMap_lines (ls : List String) :
    (ls.flatMap fun l => l.toList ++ ['\n']).count '\n' =
      ls.length + (ls.map fun l => l.toList.count '\n').sum := by
  induction ls with
  | nil => rfl
  | cons l ls ih =>
      simp only [List.flatMap_cons, List.count_append, List.count_singleton_self, ih,
        List.length_cons, List.map_cons, List.sum_cons]
      omega

theorem IsLines.count_newline {ls : List String} {text : String} (h : IsLines ls text) :
    text.toList.count '\n' = ls.length := by
  rw [h.toList_eq, count_flatMap_lines, Nat.add_eq_left, List.sum_eq_zero_iff_forall_eq_nat]
  intro n hn
  obtain ⟨l, hl, rfl⟩ := List.mem_map.mp hn
  exact List.count_eq_zero.mpr (h.plain l hl)

namespace Value

/-- The characters that start the name of a kind. -/
def kindInitials : List Char := ['s', 'u', 'p']

/-- No newline, and no character that starts the name of a kind. -/
def Quiet (cs : List Char) : Prop := ∀ c ∈ cs, c ∉ '\n' :: kindInitials

instance (cs : List Char) : Decidable (Quiet cs) :=
  List.decidableBAll _ cs

theorem quiet_append {cs ds : List Char} : Quiet (cs ++ ds) ↔ Quiet cs ∧ Quiet ds :=
  List.forall_mem_append

theorem Quiet.newline {cs : List Char} (h : Quiet cs) : '\n' ∉ cs := fun hmem =>
  h _ hmem List.mem_cons_self

theorem quiet_digits {base : Nat} (hb : base ≤ 16) {cs : List Char}
    (h : ∀ c ∈ cs, ∃ d, Numeral.IsDigit base c d) : Quiet cs := by
  have hall : ∀ d < 16, Nat.digitChar d ∉ '\n' :: kindInitials ∧
      (Nat.digitChar d).toUpper ∉ '\n' :: kindInitials := by decide
  intro c hc
  obtain ⟨d, hd, rfl | rfl⟩ := h c hc
  · exact (hall d (hd.trans_le hb)).1
  · exact (hall d (hd.trans_le hb)).2

theorem quiet_toDigits {base : Nat} (h1 : 1 < base) (hb : base ≤ 16) (n : Nat) :
    Quiet (Nat.toDigits base n) :=
  quiet_digits hb fun _ => (Numeral.writes_toDigits h1 n).isDigit

theorem quiet_nat (n : Nat) : Quiet (toString n).toList := by
  rw [Nat.toString_eq_repr, Nat.repr_eq_ofList_toDigits, String.toList_ofList]
  exact quiet_toDigits (by decide) (by decide) n

theorem quiet_int (i : Int) : Quiet (toString i).toList := by
  cases i with
  | ofNat n => exact quiet_nat n
  | negSucc n =>
      have htext : (toString (Int.negSucc n)).toList = ['-'] ++ (toString (n + 1)).toList :=
        String.toList_append
      rw [htext, quiet_append]
      exact ⟨by decide, quiet_nat _⟩

theorem quiet_address (n : Nat) : Quiet ("0x" ++ Numeral.hex n).toList := by
  have hhex : (Numeral.hex n).toList = Nat.toDigits 16 n := String.toList_ofList
  rw [String.toList_append, hhex, quiet_append]
  exact ⟨by decide, quiet_toDigits (by decide) (by decide) n⟩

theorem quiet_hexByte (b : UInt8) : Quiet (Numeral.hexByte b) := by
  have hb := b.toNat_lt
  have hdigits : ∀ c ∈ Numeral.hexByte b, ∃ d, Numeral.IsDigit 16 c d := fun c hc => by
    rcases List.mem_pair.mp hc with rfl | rfl
    · exact ⟨_, Numeral.isDigit_digitChar (by omega)⟩
    · exact ⟨_, Numeral.isDigit_digitChar (by omega)⟩
  exact quiet_digits le_rfl hdigits

/-- The word after the length of a block is the one place where a value's text is not quiet. -/
theorem toList_blockText (bytes : List UInt8) : ∃ before after, Quiet before ∧ Quiet after ∧
    (blockText bytes).toList = before ++ " bytes]".toList ++ after := by
  refine ⟨"[".toList ++ (toString bytes.length).toList,
    (bytes.take 16).flatMap (fun b => ' ' :: Numeral.hexByte b) ++
      (if bytes.length ≤ 16 then "" else " ..").toList,
    quiet_append.mpr ⟨by decide, quiet_nat _⟩, quiet_append.mpr ⟨fun c hc => ?_, ?_⟩, ?_⟩
  · obtain ⟨b, -, hc⟩ := List.mem_flatMap.mp hc
    rcases List.mem_cons.mp hc with rfl | hc
    · decide
    · exact quiet_hexByte b c hc
  · split <;> decide
  · simp only [blockText, String.toList_append, String.toList_ofList, List.append_assoc]

theorem newline_not_mem_text (v : Value) : '\n' ∉ v.text.toList := by
  cases v with
  | s32 v => exact (quiet_int _).newline
  | u32 v => exact (quiet_nat _).newline
  | s64 v => exact (quiet_int _).newline
  | u64 v => exact (quiet_nat _).newline
  | ptr v => exact (quiet_address _).newline
  | st bytes =>
      obtain ⟨before, after, hbefore, hafter, h⟩ := toList_blockText bytes
      rw [text, h, List.mem_append, List.mem_append]
      rintro ((hmem | hmem) | hmem)
      · exact hbefore.newline hmem
      · exact absurd hmem (by decide)
      · exact hafter.newline hmem

/-- Two characters that may follow each other inside a field, where no kind's name starts. -/
def Inside (a b : Char) : Prop := a = ' ' → b ∉ kindInitials

instance (a b : Char) : Decidable (Inside a b) := by
  unfold Inside
  infer_instance

theorem Quiet.isChain {cs : List Char} (h : Quiet cs) : cs.IsChain Inside := by
  have hpairs : cs.Pairwise Inside := List.pairwise_of_forall_mem_list fun _ _ b hb _ hinitial =>
    h b hb (List.mem_cons_of_mem _ hinitial)
  exact hpairs.isChain

theorem Quiet.isChain_append {cs ds : List Char} (hd : Quiet ds) (hc : cs.IsChain Inside) :
    (cs ++ ds).IsChain Inside :=
  hc.append hd.isChain fun _ _ _ hy _ hinitial =>
    hd _ (List.mem_of_mem_head? hy) (List.mem_cons_of_mem _ hinitial)

theorem isChain_text (v : Value) : (' ' :: v.text.toList).IsChain Inside := by
  have hspace : [' '].IsChain Inside := .singleton _
  cases v with
  | s32 v => exact (quiet_int _).isChain_append hspace
  | u32 v => exact (quiet_nat _).isChain_append hspace
  | s64 v => exact (quiet_int _).isChain_append hspace
  | u64 v => exact (quiet_nat _).isChain_append hspace
  | ptr v => exact (quiet_address _).isChain_append hspace
  | st bytes =>
      obtain ⟨before, after, hbefore, hafter, h⟩ := toList_blockText bytes
      have hword : (' ' :: before ++ " bytes]".toList).IsChain Inside :=
        (hbefore.isChain_append hspace).append (by decide) fun _ _ y hy _ => by
          obtain rfl : ' ' = y := Option.some.inj hy
          decide
      rw [text, h]
      exact hafter.isChain_append hword

end Value

namespace Column

/-- A text without the spaces that end it. -/
def unfilled (s : String) : List Char := s.toList.rdropWhile (· == ' ')

theorem toList_left (width : Nat) (s : String) :
    (left width s).toList = s.toList ++ List.replicate (width - s.length) ' ' := by
  rw [left, fill, String.toList_append, String.toList_ofList]

theorem rdropWhile_append_replicate (cs : List Char) (k : Nat) :
    (cs ++ List.replicate k ' ').rdropWhile (· == ' ') = cs.rdropWhile (· == ' ') := by
  induction k with
  | zero => rw [List.replicate_zero, List.append_nil]
  | succ k ih =>
      rw [List.replicate_succ', ← List.append_assoc, List.rdropWhile_concat_pos _ _ _ rfl, ih]

/-- A column shows a text up to the spaces that end it. -/
theorem unfilled_eq_of_left_eq {width : Nat} {a b : String} (h : left width a = left width b) :
    unfilled a = unfilled b := by
  have hlist := congrArg (fun s => s.toList.rdropWhile (· == ' ')) h
  simpa only [unfilled, toList_left, rdropWhile_append_replicate] using hlist

end Column

/-! ## Lines of a store -/

namespace Store

theorem toList_line (name : String) (v : Value) : (line name v).toList =
    (Column.left 28 name).toList ++
      ' ' :: ((Column.left 3 v.kind.name).toList ++ ' ' :: v.text.toList) := by
  simp [line]

theorem isChain_fields (v : Value) :
    ((Column.left 3 v.kind.name).toList ++ ' ' :: v.text.toList).IsChain Value.Inside := by
  have hkind : ∀ k : Kind, (Column.left 3 k.name).toList.IsChain Value.Inside := by
    intro k
    cases k <;> decide
  refine (hkind v.kind).append v.isChain_text fun _ _ y hy _ => ?_
  obtain rfl : ' ' = y := Option.some.inj hy
  decide

theorem exists_kind_cons (k : Kind) :
    ∃ c rest, c ∈ Value.kindInitials ∧ (Column.left 3 k.name).toList = c :: rest := by
  cases k <;> exact ⟨_, _, by decide, rfl⟩

theorem length_kind (k : Kind) : (Column.left 3 k.name).toList.length = 3 := by
  cases k <;> rfl

theorem kind_inj {k k' : Kind}
    (h : (Column.left 3 k.name).toList = (Column.left 3 k'.name).toList) : k = k' := by
  revert h
  cases k <;> cases k' <;> decide

/-- The kind of a line does not stand inside the fields of another. -/
theorem fields_ne_append (v v' : Value) (cs : List Char) :
    (Column.left 3 v.kind.name).toList ++ ' ' :: v.text.toList ≠
      cs ++ ' ' :: ((Column.left 3 v'.kind.name).toList ++ ' ' :: v'.text.toList) := by
  intro h
  obtain ⟨c, rest, hc, hkind⟩ := exists_kind_cons v'.kind
  have hchain := isChain_fields v
  rw [h, hkind, List.cons_append, List.isChain_append_cons_cons] at hchain
  exact hchain.2.1 rfl hc

/-- Two lines are the same just where all three columns are. -/
theorem line_eq_iff {name name' : String} {v v' : Value} : line name v = line name' v' ↔
    Column.left 28 name = Column.left 28 name' ∧ v.kind = v'.kind ∧ v.text = v'.text := by
  constructor
  · intro h
    have hlist := congrArg String.toList h
    rw [toList_line, toList_line, List.append_eq_append_iff] at hlist
    -- Where one name column were longer, the other line's kind would stand inside its fields.
    have hsplit : (Column.left 28 name).toList = (Column.left 28 name').toList ∧
        (Column.left 3 v.kind.name).toList ++ ' ' :: v.text.toList =
          (Column.left 3 v'.kind.name).toList ++ ' ' :: v'.text.toList := by
      rcases hlist with ⟨cs, hname, hfields⟩ | ⟨cs, hname, hfields⟩
      · cases cs with
        | nil => exact ⟨by simpa using hname.symm, (List.cons.inj hfields).2⟩
        | cons c cs => exact absurd (List.cons.inj hfields).2 (fields_ne_append _ _ _)
      · cases cs with
        | nil => exact ⟨by simpa using hname, (List.cons.inj hfields).2.symm⟩
        | cons c cs => exact absurd (List.cons.inj hfields).2 (fields_ne_append _ _ _)
    obtain ⟨hname, hfields⟩ := hsplit
    obtain ⟨hkind, htext⟩ := List.append_inj hfields (by rw [length_kind, length_kind])
    exact ⟨String.toList_inj.mp hname, kind_inj hkind,
      String.toList_inj.mp (List.cons.inj htext).2⟩
  · rintro ⟨hname, hkind, htext⟩
    rw [line, line, hname, hkind, htext]

/-- Spaces at the end of a name do not show. -/
example : line "rc.gop" (.u32 60) = line "rc.gop " (.u32 60) := by decide

variable (s : Store)

theorem toList_dump : s.dump.toList = s.lines.flatMap fun l => l.toList ++ ['\n'] := by
  rw [dump, String.toList_join, List.flatMap_map]
  simp only [String.toList_append]
  rfl

theorem count_line (name : String) (v : Value) :
    (line name v).toList.count '\n' = name.toList.count '\n' := by
  have hkind : ∀ k : Kind, (Column.left 3 k.name).toList.count '\n' = 0 := by
    intro k
    cases k <;> rfl
  have htext : v.text.toList.count '\n' = 0 := List.count_eq_zero.mpr v.newline_not_mem_text
  rw [toList_line, Column.toList_left]
  simp [List.count_append, List.count_replicate, hkind, htext]

/-- The newlines of a dump: one for each entry, and those in the names. -/
theorem count_dump : s.dump.toList.count '\n' =
    s.size + (s.keys.map fun k => k.toList.count '\n').sum := by
  have hlines : (s.lines.map fun l => l.toList.count '\n') =
      s.keys.map fun k => k.toList.count '\n' := by
    rw [lines, keys, SortedMap.keys, List.map_map, List.map_map]
    exact List.map_congr_left fun e _ => count_line e.1 e.2
  rw [toList_dump, count_flatMap_lines, hlines, lines, List.length_map]
  rfl

theorem isLines_lines (h : ∀ k ∈ s.keys, '\n' ∉ k.toList) : IsLines s.lines s.dump := by
  refine ⟨fun l hl => ?_, s.toList_dump⟩
  obtain ⟨e, he, rfl⟩ := List.mem_map.mp hl
  have hname : e.1.toList.count '\n' = 0 :=
    List.count_eq_zero.mpr (h e.1 (List.mem_map_of_mem he))
  rw [← List.count_eq_zero, count_line, hname]

theorem run_forM_listed (ls : List String) (flags : DebugFlags) :
    (ls.forM fun text => Traced.log (.listed text)).run flags = ⟨ls.map .listed, some ()⟩ := by
  induction ls with
  | nil => rfl
  | cons l ls ih =>
      change (Traced.log (.listed l) >>= fun _ => ls.forM fun text =>
        Traced.log (.listed text)).run flags = _
      rw [Traced.run_bind, ih]
      rfl

theorem exists_isLines_iff : (∃ ls, ls.length = s.size ∧ IsLines ls s.dump) ↔
    ∀ k ∈ s.keys, '\n' ∉ k.toList := by
  constructor
  · rintro ⟨ls, hlength, h⟩ k hk
    have hcount := s.count_dump
    rw [h.count_newline, hlength, Nat.left_eq_add, List.sum_eq_zero_iff_forall_eq_nat] at hcount
    exact List.count_eq_zero.mp (hcount _ (List.mem_map_of_mem hk))
  · intro h
    exact ⟨s.lines, List.length_map _, s.isLines_lines h⟩

/-- A line reads as the entry that it was printed for. -/
theorem exists_entry_of_line {name : String} {v : Value} (h : line name v ∈ s.lines) :
    ∃ e ∈ s.entries, Column.unfilled e.1 = Column.unfilled name ∧ e.2.kind = v.kind ∧
      e.2.text = v.text := by
  obtain ⟨e, he, hline⟩ := List.mem_map.mp h
  obtain ⟨hname, hkind, htext⟩ := line_eq_iff.mp hline
  exact ⟨e, he, Column.unfilled_eq_of_left_eq hname, hkind, htext⟩

theorem toList_lines : s.lines.map String.toList = s.entries.map fun e =>
    e.1.toList ++ List.replicate (28 - e.1.length) ' ' ++ ' ' ::
      (e.2.kind.name.toList ++ List.replicate (3 - e.2.kind.name.length) ' ' ++ ' ' ::
        e.2.text.toList) := by
  rw [lines, List.map_map]
  refine List.map_congr_left fun e _ => ?_
  rw [Function.comp_apply, toList_line, Column.toList_left, Column.toList_left]

theorem run_show (flags : DebugFlags) : s.«show».run flags =
    ⟨.storeHeading s.size s.pending.size :: s.lines.map .listed, some ()⟩ := by
  rw [«show», Traced.run_bind, run_forM_listed]
  rfl

/-- The entries are printed in the order of names, each as its three columns, and the logged listing
has a heading and the same lines. The dump has just as many lines as there are entries if no
committed name has a newline, and only then; the lines are the printed entries, and none of them
reads as an entry that the store does not have. -/
theorem dump_isLines_iff :
    (s.entries.Pairwise fun a b => codePoints a.1 < codePoints b.1) ∧
    s.entries.map Prod.fst = s.keys ∧ (∀ k v, (k, v) ∈ s.entries ↔ s.value? k = some v) ∧
    (s.lines.map String.toList = s.entries.map fun e =>
      e.1.toList ++ List.replicate (28 - e.1.length) ' ' ++ ' ' ::
        (e.2.kind.name.toList ++ List.replicate (3 - e.2.kind.name.length) ' ' ++ ' ' ::
          e.2.text.toList)) ∧
    s.dump.toList = (s.lines.flatMap fun l => l.toList ++ ['\n']) ∧
    (∀ flags, s.«show».run flags =
      ⟨.storeHeading s.size s.pending.size :: s.lines.map .listed, some ()⟩) ∧
    s.dump.toList.count '\n' = s.size + (s.keys.map fun k => k.toList.count '\n').sum ∧
    ((∃ ls, ls.length = s.size ∧ IsLines ls s.dump) ↔ ∀ k ∈ s.keys, '\n' ∉ k.toList) ∧
    ((∀ k ∈ s.keys, '\n' ∉ k.toList) → ∀ ls, IsLines ls s.dump → ls = s.lines ∧
      ∀ name v, line name v ∈ ls → ∃ e ∈ s.entries,
        Column.unfilled e.1 = Column.unfilled name ∧ e.2.kind = v.kind ∧ e.2.text = v.text) := by
  refine ⟨s.committed.sorted.imp codePoints_lt_of_compare, rfl, fun _ _ => SortedMap.mem_entries,
    s.toList_lines, s.toList_dump, s.run_show, s.count_dump, s.exists_isLines_iff,
    fun h ls hls => ?_⟩
  obtain rfl : ls = s.lines := hls.eq (s.isLines_lines h)
  exact ⟨rfl, fun name v => s.exists_entry_of_line⟩

theorem dump_isLines_of_two_names :
    let s := (Store.empty.put "rc.gop" (.u32 60)).put "chan.id" (.s32 (-1))
    (∃ ls, ls.length = 2 ∧ IsLines ls s.dump) ∧ ∀ ls, IsLines ls s.dump →
      ls = [line "chan.id" (.s32 (-1)), line "rc.gop" (.u32 60)] := by
  intro s
  have hnames : ∀ k ∈ s.keys, '\n' ∉ k.toList := by decide
  obtain ⟨-, -, -, -, -, -, -, hiff, hlines⟩ := dump_isLines_iff s
  exact ⟨hiff.mpr hnames, fun ls hls => (hlines hnames ls hls).1⟩

/-- A name with newlines in it prints the line of an entry that was never set. -/
theorem broken_name_adds_line :
    let name := "a\nrc.gop                       u32 60\nb"
    let s := Store.empty.put name (.u32 1)
    (assign name (1 : UInt32)).Leads .clear .empty (.ok ()) s ∧ s.size = 1 ∧
      ¬ (∃ ls, ls.length = s.size ∧ IsLines ls s.dump) ∧
      ∃ ls, IsLines ls s.dump ∧ ls.length = 3 ∧ line "rc.gop" (.u32 60) ∈ ls ∧
        s.value? "rc.gop" = none := by
  intro name s
  refine ⟨(leads_setValue_of_named (by decide)).mpr ⟨rfl, rfl⟩, rfl, ?_,
    ["a", line "rc.gop" (.u32 60), "b u32 1"], ⟨by decide, ?_⟩, rfl,
    List.mem_cons_of_mem _ List.mem_cons_self, by decide⟩
  · rw [exists_isLines_iff]
    intro h
    exact absurd (h name List.mem_cons_self) (by decide)
  · rw [toList_dump]
    decide

end Store

end EncoderSetup
