import OSCoreSim.View.OverviewRenderer
/-!
# What the memory map hides

The map line masks the blocks of other users altogether.  The segmented view and the block table
mask their owner, and print their PID and their tag as they are.
-/

namespace OSCoreSim

open MemoryManager (showBlock blockTableHeader)

namespace MemoryBlock

def Foreign (user : Str) (block : MemoryBlock) : Prop :=
  (block.type = .process ∨ block.type = .kernel) ∧ block.owner ≠ user

/-- The same block, or two blocks of other users that differ at most in owner, PID and tag. -/
def Alike (user : Str) (block block' : MemoryBlock) : Prop :=
  block = block' ∨ (block.Foreign user ∧ block'.Foreign user ∧ block.start = block'.start ∧
    block.size = block'.size ∧ block.type = block'.type)

/-- The details that the map should hide, apart from the owner. -/
def SameDetails (block block' : MemoryBlock) :
    Prop := block.pid = block'.pid ∧ block.tag = block'.tag

/-- A tag of one line that can be told from the PID printed before it. -/
def Legible (block : MemoryBlock) : Prop :=
  (10 : UInt8) ∉ block.tag ∧ Apart block.pid.toNat block.tag

instance (user : Str) (block : MemoryBlock) : Decidable (block.Foreign user) :=
  inferInstanceAs (Decidable (_ ∧ _))

instance (user : Str) (block block' : MemoryBlock) : Decidable (Alike user block block') :=
  inferInstanceAs (Decidable (_ ∨ _))

instance (block block' : MemoryBlock) : Decidable (SameDetails block block') :=
  inferInstanceAs (Decidable (_ ∧ _))

instance (block : MemoryBlock) : Decidable block.Legible :=
  inferInstanceAs (Decidable (_ ∧ _))

end MemoryBlock

namespace OverviewRenderer

open MemoryBlock

variable {floats : FloatFormat} {user : Str} {block block' : MemoryBlock}
  {blocks blocks' : List MemoryBlock} {total : UInt32}

/-! ## The three passes over one block -/

theorem mapSegment_alike (h : Alike user block block') :
    mapSegment user block = mapSegment user block' := by
  rcases h with rfl | ⟨⟨htype, howner⟩, ⟨-, howner'⟩, -, hsize, hsame⟩
  · rfl
  · unfold mapSegment
    rw [← hsame, ← hsize]
    rcases htype with hprocess | hkernel
    · simp only [hprocess, if_neg howner, if_neg howner']
    · simp only [hkernel, if_neg howner, if_neg howner']

def maskedColumns (block : MemoryBlock) : Str :=
  setw 8 (decimal block.start.toNat) ++ setw 8 (decimal (block.start + block.size - 1).toNat) ++
    setw 9 (decimal block.size.toNat) ++ setw 10 block.type.toText ++ setw 12 (str "OTHER_USER")

theorem showBlock_foreign (h : block.Foreign user) : showBlock user block =
    maskedColumns block ++ (setw 7 (decimal block.pid.toNat) ++ block.tag) ++ [10] := by
  have hfree : decide (block.type = .free) = false := by rcases h.1 with h | h <;> simp [h]
  have howned : decide (block.owner = user) = false := decide_eq_false h.2
  simp only [showBlock, maskedColumns, hfree, howned, Bool.not_false, Bool.true_and,
    Bool.false_eq_true, if_false, List.append_assoc]
  rfl

def maskedLine (block : MemoryBlock) : Str :=
  str "[" ++ decimal block.start.toNat ++ str "-" ++
    decimal (block.start + block.size - 1).toNat ++ str "] " ++ block.type.toText ++
    str " OTHER_USER pid=" ++ decimal block.pid.toNat ++ str " " ++ block.tag ++ str " " ++
    decimal block.size.toNat ++ str "KB"

theorem segmentLine_foreign (h : block.Foreign user) :
    segmentLine user block = maskedLine block ++ [10] := by
  have hfree : decide (block.type = .free) = false := by rcases h.1 with h | h <;> simp [h]
  have howned : decide (block.owner = user) = false := decide_eq_false h.2
  simp only [segmentLine, maskedLine, hfree, howned, Bool.not_false, Bool.true_and,
    Bool.false_eq_true, if_false, List.append_assoc]
  rfl

theorem maskedColumns_alike (h : Alike user block block') :
    maskedColumns block = maskedColumns block' := by
  rcases h with rfl | ⟨-, -, hstart, hsize, htype⟩
  · rfl
  · simp only [maskedColumns, hstart, hsize, htype]

theorem lines_eq_of_details (h : Alike user block block') (hdetails : SameDetails block block') :
    segmentLine user block = segmentLine user block' ∧
      showBlock user block = showBlock user block' := by
  rcases h with rfl | ⟨hforeign, hforeign', hstart, hsize, htype⟩
  · exact ⟨rfl, rfl⟩
  · rw [segmentLine_foreign hforeign, segmentLine_foreign hforeign', showBlock_foreign hforeign,
      showBlock_foreign hforeign']
    simp only [maskedLine, maskedColumns, hstart, hsize, htype, hdetails.1, hdetails.2, and_self]

theorem newline_notMem_decimal (n : ℕ) : (10 : UInt8) ∉ decimal n := fun hmem =>
  absurd (isDigit_of_mem_decimal _ hmem) (by decide)

theorem newline_notMem_setw {width : ℕ} {s : Str} (h : (10 : UInt8) ∉ s) :
    (10 : UInt8) ∉ setw width s := by
  simp [setw, h]

theorem newline_notMem_masked (h : (10 : UInt8) ∉ block.tag) : (10 : UInt8) ∉ maskedLine block ∧
    (10 : UInt8) ∉ maskedColumns block ++ (setw 7 (decimal block.pid.toNat) ++ block.tag) := by
  have htype : (10 : UInt8) ∉ block.type.toText := by cases block.type <;> decide
  have hword : (10 : UInt8) ∉ str "OTHER_USER" := by decide
  constructor
  · simp only [maskedLine, List.mem_append, newline_notMem_decimal, htype, h, or_false]
    decide
  · simp [maskedColumns, newline_notMem_setw, newline_notMem_decimal, htype, h, hword]

theorem details_of_showBlock (h : Alike user block block') (hlegible : block.Legible)
    (hlegible' : block'.Legible) (hforeign : block.Foreign user) (hforeign' : block'.Foreign user)
    (heq : showBlock user block = showBlock user block') : SameDetails block block' := by
  rw [showBlock_foreign hforeign, showBlock_foreign hforeign', maskedColumns_alike h] at heq
  have hcells := List.append_cancel_left (List.append_cancel_right heq)
  obtain ⟨hpid, htag⟩ := column_inj hlegible.2 hlegible'.2 hcells
  exact ⟨UInt32.toNat_inj.mp hpid, htag⟩

/-! ## The whole map -/

def AlikeTables (user : Str) (blocks blocks' : List MemoryBlock) : Prop :=
  List.Forall₂ (Alike user) blocks blocks'

instance (user : Str) (blocks blocks' : List MemoryBlock) :
    Decidable (AlikeTables user blocks blocks') :=
  inferInstanceAs (Decidable (List.Forall₂ _ _ _))

def mapHead (floats : FloatFormat) (used total : UInt32) : Str :=
  str "[4] 内存分区图 / Memory Map\n地址范围 / Address Range: 0-" ++ decimal total.toNat ++
    str "KB\n" ++ str "内存使用 / Usage: " ++ progressBar floats used total 32 ++ str " " ++
    decimal used.toNat ++ str "/" ++ decimal total.toNat ++ str "KB (" ++
    floats.percentText used total ++ str "%)\n" ++
    str "图例 / Legend: FREE=空闲, PROCESS=进程, KERNEL=内核, SWAPPED=已换出, OTHER_USER=其他用户\n\n"

def mapLine (user : Str) (blocks : List MemoryBlock) : Str :=
  blocks.flatMap (mapSegment user) ++ str "|"

def detailLines (user : Str) (blocks : List MemoryBlock) : Str :=
  (if (mapLine user blocks).length ≤ 160 then mapLine user blocks ++ str "\n\n"
    else str "内存块较多，改用分段视图展示：\n" ++ blocks.flatMap (segmentLine user) ++ str "\n") ++
  (str "Memory Blocks / 内存块明细:\n" ++ blockTableHeader) ++ blocks.flatMap (showBlock user)

theorem detailLines_end (hne : blocks ≠ []) : ∃ s, detailLines user blocks = s ++ [10] := by
  obtain ⟨init, last, rfl⟩ := (List.eq_nil_or_concat' blocks).resolve_left hne
  obtain ⟨s, hs⟩ : ∃ s, showBlock user last = s ++ [10] := ⟨_, rfl⟩
  simp only [detailLines, List.flatMap_append, List.flatMap_singleton, hs, ← List.append_assoc]
  exact ⟨_, rfl⟩

theorem renderMemoryMap_eq (hne : blocks ≠ []) :
    renderMemoryMap floats user blocks total ++ [10] =
      mapHead floats (usedKB blocks) total ++ detailLines user blocks := by
  obtain ⟨s, hs⟩ : ∃ s, detailLines user blocks = s ++ [10] := detailLines_end hne
  have hpop : renderMemoryMap floats user blocks total =
      popNewline (mapHead floats (usedKB blocks) total ++ detailLines user blocks) := by
    simp only [renderMemoryMap, if_neg hne, mapHead, detailLines, mapLine, List.append_assoc]
  rw [hpop, hs, ← List.append_assoc, popNewline_append]

theorem usedKB_alike (h : AlikeTables user blocks blocks') : usedKB blocks = usedKB blocks' := by
  induction h with
  | nil => rfl
  | @cons block block' _ _ halike _ ih =>
    have hsame : block.type = block'.type ∧ block.size = block'.size := by
      rcases halike with rfl | ⟨-, -, -, hsize, htype⟩
      · exact ⟨rfl, rfl⟩
      · exact ⟨htype, hsize⟩
    unfold usedKB at ih ⊢
    rw [List.filter_cons, List.filter_cons, hsame.1]
    split
    · rw [List.map_cons, List.map_cons, List.sum_cons, List.sum_cons, hsame.2, ih]
    · exact ih

theorem flatMap_eq_of_forall₂ {line : MemoryBlock → Str}
    (h : List.Forall₂ (fun block block' => line block = line block') blocks blocks') :
    blocks.flatMap line = blocks'.flatMap line := by
  induction h with
  | nil => rfl
  | cons hline _ ih => rw [List.flatMap_cons, List.flatMap_cons, hline, ih]

theorem mapLine_alike (h : AlikeTables user blocks blocks') :
    mapLine user blocks = mapLine user blocks' := by
  rw [mapLine, flatMap_eq_of_forall₂ (h.imp fun _ _ => mapSegment_alike)]
  rfl

theorem AlikeTables.nil_iff (h : AlikeTables user blocks blocks') : blocks = [] ↔ blocks' = [] := by
  cases h <;> simp

/-- Alike tables are told apart by the segmented view and the block table only. -/
theorem renderMemoryMap_inj (h : AlikeTables user blocks blocks') :
    renderMemoryMap floats user blocks total = renderMemoryMap floats user blocks' total ↔
      detailLines user blocks = detailLines user blocks' := by
  by_cases hne : blocks = []
  · rw [hne, h.nil_iff.mp hne]
    simp only
  · have hne' : blocks' ≠ [] := fun hnil => hne (h.nil_iff.mpr hnil)
    rw [← List.append_left_inj [10], renderMemoryMap_eq hne, renderMemoryMap_eq hne',
      usedKB_alike h, List.append_right_inj]

theorem detailLines_eq (h : AlikeTables user blocks blocks')
    (hdetails : List.Forall₂ SameDetails blocks blocks') :
    detailLines user blocks = detailLines user blocks' := by
  have hlines := List.Forall₂.mp (fun _ _ => lines_eq_of_details) h hdetails
  rw [detailLines, detailLines, mapLine_alike h,
    flatMap_eq_of_forall₂ (hlines.imp fun _ _ hline => hline.1),
    flatMap_eq_of_forall₂ (hlines.imp fun _ _ hline => hline.2)]

def LegiblyAlike (user : Str) (block block' : MemoryBlock) : Prop :=
  Alike user block block' ∧ (block.Foreign user → block.Legible) ∧
    (block'.Foreign user → block'.Legible)

theorem AlikeTables.legibly (h : AlikeTables user blocks blocks')
    (hlegible : ∀ block ∈ blocks, block.Foreign user → block.Legible)
    (hlegible' : ∀ block ∈ blocks', block.Foreign user → block.Legible) :
    List.Forall₂ (LegiblyAlike user) blocks blocks' := by
  induction h with
  | nil => exact .nil
  | cons halike _ ih =>
    refine .cons ⟨halike, hlegible _ List.mem_cons_self, hlegible' _ List.mem_cons_self⟩ ?_
    exact ih (fun block hmem => hlegible block (List.mem_cons_of_mem _ hmem))
      (fun block hmem => hlegible' block (List.mem_cons_of_mem _ hmem))

theorem LegiblyAlike.rows (h : LegiblyAlike user block block') {row masked : MemoryBlock → Str}
    (hrow : ∀ {block : MemoryBlock}, block.Foreign user → row block = masked block ++ [10])
    (hline : ∀ {block : MemoryBlock}, block.Legible → (10 : UInt8) ∉ masked block) :
    row block = row block' ∨ ∃ a b, (10 : UInt8) ∉ a ∧ (10 : UInt8) ∉ b ∧
      row block = a ++ [10] ∧ row block' = b ++ [10] := by
  obtain ⟨rfl | ⟨hforeign, hforeign', -⟩, hlegible, hlegible'⟩ := h
  · exact .inl rfl
  · exact .inr ⟨_, _, hline (hlegible hforeign), hline (hlegible' hforeign'), hrow hforeign,
      hrow hforeign'⟩

theorem LegiblyAlike.details (h : LegiblyAlike user block block')
    (heq : showBlock user block = showBlock user block') : SameDetails block block' := by
  obtain ⟨halike, hlegible, hlegible'⟩ := h
  rcases id halike with rfl | ⟨hforeign, hforeign', -⟩
  · exact ⟨rfl, rfl⟩
  · exact details_of_showBlock halike (hlegible hforeign) (hlegible' hforeign') hforeign hforeign' heq

/-- Legible details can be read off the text, in both layouts. -/
theorem details_of_detailLines (h : AlikeTables user blocks blocks')
    (hlegible : ∀ block ∈ blocks, block.Foreign user → block.Legible)
    (hlegible' : ∀ block ∈ blocks', block.Foreign user → block.Legible)
    (heq : detailLines user blocks = detailLines user blocks') :
    List.Forall₂ SameDetails blocks blocks' := by
  have hboth := h.legibly hlegible hlegible'
  -- past the layout part, which is the same map line or a segmented view with as many lines
  have hrows : blocks.flatMap (showBlock user) = blocks'.flatMap (showBlock user) := by
    rw [detailLines, detailLines, mapLine_alike h] at heq
    split at heq
    · exact List.append_cancel_left heq
    · simp only [List.append_assoc] at heq
      have htail := (flatMap_lines (fun _ _ h => h.rows segmentLine_foreign
        fun hleg => (newline_notMem_masked hleg.1).1) hboth (List.append_cancel_left heq)).2
      simpa only [List.append_right_inj] using htail
  have hsame := (flatMap_lines (fun _ _ h => h.rows showBlock_foreign
    fun hleg => (newline_notMem_masked hleg.1).2) hboth (congrArg (· ++ []) hrows)).1
  exact List.Forall₂.mp (fun _ _ => LegiblyAlike.details) hboth hsame

def longerTag (block : MemoryBlock) : MemoryBlock := { block with tag := block.tag ++ [32] }

theorem length_detailLines_lt {before after : List MemoryBlock} (h : block.Foreign user)
    (halike : AlikeTables user (before ++ block :: after) (before ++ longerTag block :: after)) :
    (detailLines user (before ++ block :: after)).length <
      (detailLines user (before ++ longerTag block :: after)).length := by
  have hforeign : (longerTag block).Foreign user := h
  have hrow : (showBlock user (longerTag block)).length = (showBlock user block).length + 1 := by
    rw [showBlock_foreign h, showBlock_foreign hforeign]
    simp only [longerTag, maskedColumns, List.length_append, List.length_singleton]
    omega
  have hline : (segmentLine user (longerTag block)).length =
      (segmentLine user block).length + 1 := by
    rw [segmentLine_foreign h, segmentLine_foreign hforeign]
    simp only [longerTag, maskedLine, List.length_append, List.length_singleton]
    omega
  rw [detailLines, detailLines, mapLine_alike halike]
  split
  · simp only [List.flatMap_append, List.flatMap_cons, List.length_append, hrow]
    omega
  · simp only [List.flatMap_append, List.flatMap_cons, List.length_append, hrow, hline]
    omega

theorem alikeTables_refl (blocks : List MemoryBlock) : AlikeTables user blocks blocks :=
  List.forall₂_same.mpr fun _ _ => .inl rfl

theorem alikeTables_longerTag (before after : List MemoryBlock) (h : block.Foreign user) :
    AlikeTables user (before ++ block :: after) (before ++ longerTag block :: after) :=
  List.rel_append (alikeTables_refl before)
    (.cons (.inr ⟨h, h, rfl, rfl, rfl⟩) (alikeTables_refl after))

theorem eq_of_no_foreign (h : AlikeTables user blocks blocks')
    (hnone : ∀ block ∈ blocks, ¬block.Foreign user) : blocks = blocks' := by
  induction h with
  | nil => rfl
  | @cons block block' _ _ halike _ ih =>
    have hsame : block = block' :=
      halike.resolve_right fun hpair => hnone block List.mem_cons_self hpair.1
    rw [hsame, ih fun block hmem => hnone block (List.mem_cons_of_mem _ hmem)]

/-- A table looks the same whatever the owners, PIDs and tags of other users' blocks are exactly
if there are no such blocks.  Two alike tables look the same if they differ in the owners only,
and no others do as far as tags and PIDs are legible. -/
theorem renderMemoryMap_hides_iff (floats : FloatFormat) (user : Str) (blocks : List MemoryBlock)
    (total : UInt32) :
    ((∀ blocks', AlikeTables user blocks blocks' →
      renderMemoryMap floats user blocks total = renderMemoryMap floats user blocks' total) ↔
        ∀ block ∈ blocks, ¬block.Foreign user) ∧
    ∀ blocks', AlikeTables user blocks blocks' →
      (List.Forall₂ SameDetails blocks blocks' →
        renderMemoryMap floats user blocks total = renderMemoryMap floats user blocks' total) ∧
      ((∀ block ∈ blocks ++ blocks', block.Foreign user → block.Legible) →
        renderMemoryMap floats user blocks total = renderMemoryMap floats user blocks' total →
          List.Forall₂ SameDetails blocks blocks') := by
  refine ⟨⟨fun hhides block hmem hforeign => ?_, fun hnone blocks' halike => ?_⟩,
    fun blocks' halike => ⟨fun hdetails => ?_, fun hlegible htext => ?_⟩⟩
  · obtain ⟨before, after, rfl⟩ := List.append_of_mem hmem
    have halike := alikeTables_longerTag before after hforeign
    have hlines := (renderMemoryMap_inj halike).mp (hhides _ halike)
    have hlonger := length_detailLines_lt hforeign halike
    rw [← hlines] at hlonger
    exact Nat.lt_irrefl _ hlonger
  · rw [eq_of_no_foreign halike hnone]
  · exact (renderMemoryMap_inj halike).mpr (detailLines_eq halike hdetails)
  · have hlines := (renderMemoryMap_inj halike).mp htext
    exact details_of_detailLines halike
      (fun block hmem => hlegible block (List.mem_append_left _ hmem))
      (fun block hmem => hlegible block (List.mem_append_right _ hmem)) hlines

def blockOf (owner : String) (pid start : UInt32) (tag : String) : MemoryBlock :=
  { start := start, size := 4, type := .process, pid := pid, owner := str owner, tag := str tag }

def shownToA (blocks : List MemoryBlock) : Str :=
  renderMemoryMap { fragmentationText := fun _ _ => [], percentText := fun _ _ => []
                    progressFilled := fun _ _ _ => 0 } (str "a") blocks 1024

/-- Whether a block belongs to `b` or to `c` does not show. -/
theorem renderMemoryMap_hides_owner :
    shownToA [blockOf "a" 1 0 "p", blockOf "b" 2 4 "q", freeBlock 8 1016] =
      shownToA [blockOf "a" 1 0 "p", blockOf "c" 2 4 "q", freeBlock 8 1016] :=
  ((renderMemoryMap_hides_iff _ (str "a") _ 1024).2 _ (by decide)).1 (by decide)

/-- Which process of `b` holds a block shows in the block table, and in a table of ten blocks in
the segmented view too. -/
theorem renderMemoryMap_leaks :
    let few (pid : UInt32) (tag : String) := [blockOf "b" pid 0 tag, freeBlock 4 1020]
    let many (pid : UInt32) (tag : String) := List.replicate 10 (blockOf "b" pid 0 tag)
    AlikeTables (str "a") (few 1 "p") (few 2 "q") ∧
      shownToA (few 1 "p") ≠ shownToA (few 2 "q") ∧
      AlikeTables (str "a") (many 1 "p") (many 2 "q") ∧
      shownToA (many 1 "p") ≠ shownToA (many 2 "q") ∧
      160 < (mapLine (str "a") (many 1 "p")).length := by
  decide +kernel

end OverviewRenderer

end OSCoreSim
