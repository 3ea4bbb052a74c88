import Bafs.Volume.Frame

/-!
# Bafs.Volume.Recycle

Superseded blocks return to the free-extent tree.

A block below the committed boundary is freed, which supersedes nodes of the
free-extent tree in turn, some of them below the boundary, and so on
(`ends_returnFreedLoop`).  Every node below the boundary that is reported has
left the tree, and it is reported at most twice: the number of rounds is at most
the number of blocks to return and twice the number of nodes of the tree below
the boundary.
-/

namespace Bafs

open CowTree Hoare

/-! ## The free-extent tree of a volume -/

/-- The free-extent tree is `t`, with the records of `es`. -/
structure BafsVolume.HasFree (v : BafsVolume) (t : BafsTree) (es : List BafsFreeExtent) :
    Prop where
  tree : v.HasTree v.superblock.freeExtentTreeRootBlock t
  records : RecordsFree t es

/-- The blocks below the boundary. -/
def belowBoundary (boundary : UInt64) (blocks : List UInt64) : List UInt64 :=
  blocks.filter (· < boundary)

/-- The nodes of a tree below the boundary, by number. -/
def nodesBelow (boundary : UInt64) (t : BafsTree) : Nat :=
  t.blocks.countP (· < boundary.toNat)

/-- The runs after blocks were returned, one by one. -/
def freeAll (blocks : List UInt64) (es : List BafsFreeExtent) : List BafsFreeExtent :=
  blocks.foldl (fun es b => freeRun ⟨b, 1⟩ es) es

/-- The superseded nodes below the boundary are counted against those that were in the tree. -/
theorem length_belowBoundary_le {k n n' : Nat} {t t' : BafsTree} {freed : List Nat}
    {boundary : UInt64} (h : t.toAnyTree.Rewritten k n (t'.toAnyTree, n', freed))
    (hlt : ∀ b ∈ freed, b < 2 ^ 64) (hle : boundary.toNat ≤ n) :
    (belowBoundary boundary (freed.map UInt64.ofNat)).length + 2 * nodesBelow boundary t' ≤
      2 * nodesBelow boundary t := by
  have hcount := h.countP_le (· < boundary.toNat) fun b hb => by
    have : ¬ b < boundary.toNat := by omega
    simp [this]
  have hlen : (belowBoundary boundary (freed.map UInt64.ofNat)).length =
      freed.countP (· < boundary.toNat) := by
    rw [belowBoundary, ← List.countP_eq_length_filter, List.countP_map]
    refine List.countP_congr fun b hb => ?_
    simp [UInt64.lt_iff_toNat_lt, toNat_ofNat_of_lt (hlt b hb)]
  rw [hlen]
  exact hcount

/-- The tree is no lower than it was, and a root that was not committed still is not. -/
structure Grows (boundary : UInt64) (t t' : BafsTree) : Prop where
  height_le : t.height ≤ t'.height
  addr : boundary.toNat ≤ t.addr → boundary.toNat ≤ t'.addr

/-- The tree is as high as it was, or its root was not committed: then no committed node is reported
twice. -/
def Keeps (boundary : UInt64) (t t' : BafsTree) : Prop :=
  t'.height = t.height ∨ boundary.toNat ≤ t.addr

section Grows

variable {boundary : UInt64} {t t' t'' : BafsTree} {k n n' : Nat} {freed : List Nat}

theorem Grows.refl (boundary : UInt64) (t : BafsTree) : Grows boundary t t :=
  ⟨Nat.le_refl _, id⟩

theorem Grows.trans (h : Grows boundary t t') (h' : Grows boundary t' t'') :
    Grows boundary t t'' :=
  ⟨h.height_le.trans h'.height_le, h'.addr ∘ h.addr⟩

theorem Grows.of_rewritten (h : t.toAnyTree.Rewritten k n (t'.toAnyTree, n', freed))
    (hle : boundary.toNat ≤ n) : Grows boundary t t' where
  height_le := h.le_height
  addr haddr := by
    rcases h.addr with ⟨heq, -⟩ | ⟨hge, -⟩
    · exact haddr.trans_eq (congrArg AnyTree.addr heq).symm
    · exact hle.trans hge

/-- What is kept over two steps is kept over each of them. -/
theorem Keeps.split (h : Keeps boundary t t'') (h₁ : Grows boundary t t')
    (h₂ : Grows boundary t' t'') : Keeps boundary t t' ∧ Keeps boundary t' t'' := by
  have hle₁ := h₁.height_le
  have hle₂ := h₂.height_le
  rcases h with heq | haddr
  · exact ⟨.inl (by omega), .inl (by omega)⟩
  · exact ⟨.inr haddr, .inr (h₁.addr haddr)⟩

end Grows

/-- Committed nodes that are reported have left the tree. -/
theorem count_belowBoundary_le {k n n' : Nat} {t t' : BafsTree} {freed : List Nat}
    {boundary : UInt64} (h : t.toAnyTree.Rewritten k n (t'.toAnyTree, n', freed))
    (hlt : ∀ b ∈ freed, b < 2 ^ 64) (hle : boundary.toNat ≤ n) (hkeeps : Keeps boundary t t')
    {b : UInt64} (hb : b < boundary) :
    (belowBoundary boundary (freed.map UInt64.ofNat)).count b + t'.blocks.count b.toNat ≤
      t.blocks.count b.toNat := by
  rw [UInt64.lt_iff_toNat_lt] at hb
  have honce := h.countP_once (· == b.toNat) (fun a ha => by
    have : a ≠ b.toNat := by omega
    simpa using this) (hkeeps.imp id fun haddr => by
      have : t.toAnyTree.addr ≠ b.toNat := by omega
      simpa using this)
  have hcount : (freed.map UInt64.ofNat).count b = freed.countP (· == b.toNat) := by
    rw [List.count, List.countP_map]
    refine List.countP_congr fun a ha => ?_
    have hnat := toNat_ofNat_of_lt (hlt a ha)
    simp only [Function.comp_apply, beq_iff_eq]
    rw [← UInt64.toNat_inj, hnat]
  have hfilter : (belowBoundary boundary (freed.map UInt64.ofNat)).count b ≤
      (freed.map UInt64.ofNat).count b := List.Sublist.count_le b List.filter_sublist
  exact (Nat.add_le_add_right (hfilter.trans hcount.le) _).trans honce

/-- The blocks `returned` went back to the free-extent tree, which superseded `freed`. -/
structure Returned (returned : List UInt64) (freed : List Nat) (v : BafsVolume) (t : BafsTree)
    (es : List BafsFreeExtent) (v' : BafsVolume) (t' : BafsTree) : Prop where
  advances : Advances v v'
  superblock : v'.superblock = { v.superblock with
    freeExtentTreeRootBlock := v'.superblock.freeExtentTreeRootBlock
    freeBlockCount := v'.superblock.freeBlockCount }
  free : v'.HasFree t' (freeAll returned es)
  count : v'.superblock.freeBlockCount.toNat =
    v.superblock.freeBlockCount.toNat + returned.length
  rewritten : t.toAnyTree.Rewritten (3 * returned.length) v.nextFreeBlock.toNat
    (t'.toAnyTree, v'.nextFreeBlock.toNat, freed)
  below : ∀ b ∈ freed, b < v'.nextFreeBlock.toNat
  le_next : v.nextFreeBlock.toNat + returned.length ≤ v'.nextFreeBlock.toNat
  next_le : v'.nextFreeBlock.toNat ≤
    v.nextFreeBlock.toNat + maxBlocksPerFree * returned.length

section Returned

variable {v v' v'' : BafsVolume} {t t' t'' : BafsTree} {es : List BafsFreeExtent}
  {bs bs' : List UInt64} {freed freed' : List Nat}

theorem Returned.refl (h : v.HasFree t es) : Returned [] [] v t es v t where
  advances := .refl v
  superblock := rfl
  free := h
  count := rfl
  rewritten := .refl _ _
  below _ hb := absurd hb List.not_mem_nil
  le_next := Nat.le_refl _
  next_le := Nat.le_refl _

theorem Returned.trans (h : Returned bs freed v t es v' t')
    (h' : Returned bs' freed' v' t' (freeAll bs es) v'' t'') :
    Returned (bs ++ bs') (freed ++ freed') v t es v'' t'' where
  advances := h.advances.trans h'.advances
  superblock := by
    rw [h'.superblock, h.superblock]
  free := by
    rw [freeAll, List.foldl_append]
    exact h'.free
  count := by
    rw [h'.count, h.count, List.length_append, Nat.add_assoc]
  rewritten := by
    rw [List.length_append, Nat.mul_add]
    exact h.rewritten.trans h'.rewritten
  below b hb := (List.mem_append.mp hb).elim
    (fun hb => (h.below b hb).trans_le h'.advances.next_le) (h'.below b)
  le_next := by
    have := h.le_next
    have := h'.le_next
    rw [List.length_append]
    omega
  next_le := by
    have := h.next_le
    have := h'.next_le
    rw [List.length_append, Nat.mul_add]
    omega

/-- The boundary stays where it is. -/
theorem Returned.boundary (h : Returned bs freed v t es v' t') :
    v'.superblock.nextCowBlockAddress = v.superblock.nextCowBlockAddress := by
  rw [h.superblock]

/-- The reported nodes below the boundary. -/
theorem Returned.length_belowBoundary (h : Returned bs freed v t es v' t') {boundary : UInt64}
    (hle : boundary.toNat ≤ v.nextFreeBlock.toNat) :
    (belowBoundary boundary (freed.map UInt64.ofNat)).length + 2 * nodesBelow boundary t' ≤
      2 * nodesBelow boundary t :=
  length_belowBoundary_le h.rewritten
    (fun b hb => (h.below b hb).trans v'.nextFreeBlock.toNat_lt) hle

end Returned

/-! ## One block -/

/-- Room to return `n` blocks without a panic: the runs end at or before `bound`, the bump pointer
and the free count stay in `u64`. -/
structure RecycleRoom (bound n : Nat) (v : BafsVolume) (es : List BafsFreeExtent) : Prop where
  bounded : FreeBounded bound es
  boundary : v.superblock.nextCowBlockAddress.toNat ≤ bound
  next : v.nextFreeBlock.toNat + maxBlocksPerFree * n < 2 ^ 64
  count : v.superblock.freeBlockCount.toNat + n < 2 ^ 64

theorem RecycleRoom.mono {bound n m : Nat} {v : BafsVolume} {es : List BafsFreeExtent}
    (h : RecycleRoom bound n v es) (hm : m ≤ n) : RecycleRoom bound m v es where
  bounded := h.bounded
  boundary := h.boundary
  next := by
    have := h.next
    have := Nat.mul_le_mul_left maxBlocksPerFree hm
    omega
  count := by
    have := h.count
    omega

theorem FreeBounded.freeAll {bound : Nat} {es : List BafsFreeExtent} (h : FreeBounded bound es)
    {bs : List UInt64} (hbs : ∀ b ∈ bs, b.toNat < bound) : FreeBounded bound (freeAll bs es) := by
  induction bs generalizing es with
  | nil => exact h
  | cons b bs ih =>
      have hrun : BafsFreeExtent.stop ⟨b, 1⟩ ≤ bound := hbs b List.mem_cons_self
      exact ih (h.freeRun hrun)
        fun b hb => hbs b (List.mem_cons_of_mem _ hb)

/-- Blocks that touch neither each other nor the runs become runs of their own, in the place of runs
that begin with them. -/
theorem mem_freeAll_of_apart {bs : List UInt64} {es : List BafsFreeExtent} {e : BafsFreeExtent}
    (hes : Sorted BafsFreeExtent.start es) (hbs : ∀ b ∈ bs, ∀ b' ∈ bs, b + 1 ≠ b')
    (hbefore : ∀ b ∈ bs, ∀ e ∈ es, e.blockAddress + e.blockCount ≠ b)
    (hafter : ∀ b ∈ bs, ∀ e ∈ es, e.blockAddress ≠ b + 1) (he : e ∈ freeAll bs es) :
    e ∈ es ∧ e.blockAddress ∉ bs ∨ ∃ b ∈ bs, e = ⟨b, 1⟩ := by
  induction bs generalizing es with
  | nil => exact .inl ⟨he, List.not_mem_nil⟩
  | cons b bs ih =>
      have hrun : freeRun ⟨b, 1⟩ es = insertItem BafsFreeExtent.start ⟨b, 1⟩ es :=
        freeRun_of_apart (hbefore b List.mem_cons_self) (hafter b List.mem_cons_self)
      rw [freeAll, List.foldl_cons, hrun] at he
      have hmem (b' : UInt64) (hb' : b' ∈ bs) : b' ∈ b :: bs := List.mem_cons_of_mem b hb'
      have hbefore' : ∀ x ∈ bs, ∀ y ∈ insertItem BafsFreeExtent.start ⟨b, 1⟩ es,
          y.blockAddress + y.blockCount ≠ x := by
        intro x hx y hy
        rcases mem_insertItem hy with rfl | hy
        · exact hbs b List.mem_cons_self x (hmem x hx)
        · exact hbefore x (hmem x hx) y hy
      have hafter' : ∀ x ∈ bs, ∀ y ∈ insertItem BafsFreeExtent.start ⟨b, 1⟩ es,
          y.blockAddress ≠ x + 1 := by
        intro x hx y hy
        rcases mem_insertItem hy with rfl | hy
        · exact (hbs x (hmem x hx) b List.mem_cons_self).symm
        · exact hafter x (hmem x hx) y hy
      rcases ih hes.insertItem (fun x hx y hy => hbs x (hmem x hx) y (hmem y hy)) hbefore' hafter'
        he with ⟨he, hnot⟩ | ⟨b', hb', rfl⟩
      · rcases hes.mem_insertItem_iff.mp he with rfl | ⟨he, hne⟩
        · exact .inr ⟨b, List.mem_cons_self, rfl⟩
        · refine .inl ⟨he, fun hin => ?_⟩
          rcases List.mem_cons.mp hin with heq | hin
          · exact hne (congrArg UInt64.toNat heq)
          · exact hnot hin
      · exact .inr ⟨b', hmem b' hb', rfl⟩

section Loop

variable {v : BafsVolume} {t : BafsTree} {es : List BafsFreeExtent} {g : UInt64} {P : Prop}
  {bound : Nat}

/-- Room that is left after some blocks were returned. -/
theorem RecycleRoom.returned {n m : Nat} {bs : List UInt64} {freed : List Nat} {v' : BafsVolume}
    {t' : BafsTree} (h : RecycleRoom bound n v es) (hr : Returned bs freed v t es v' t')
    (hbs : ∀ b ∈ bs, b < v.superblock.nextCowBlockAddress) (hm : bs.length + m ≤ n) :
    RecycleRoom bound m v' (freeAll bs es) where
  bounded := h.bounded.freeAll fun b hb =>
    (UInt64.lt_iff_toNat_lt.mp (hbs b hb)).trans_le h.boundary
  boundary := hr.boundary ▸ h.boundary
  next := by
    have := h.next
    have := hr.next_le
    have := Nat.mul_le_mul_left maxBlocksPerFree hm
    rw [Nat.mul_add] at this
    omega
  count := by
    have := h.count
    have := hr.count
    omega

theorem ends_returnFreedBlock (h : v.HasFree t es) (b : UInt64) (sec : List UInt64)
    (hb : b < v.superblock.nextCowBlockAddress) (hroom : ¬ P → RecycleRoom bound 1 v es) :
    Ends (returnFreedBlock g b sec) v
      (fun sec' v' => ∃ t' freed, Returned [b] freed v t es v' t' ∧
        sec' = sec ++ freed.map UInt64.ofNat)
      (Fails (fun _ _ => False) P) := by
  have hroom' : ¬ P → FreeRoom bound ⟨b, 1⟩ es (v.treeState sec) := fun hp => by
    obtain ⟨hes, hbound, hnext, -⟩ := hroom hp
    rw [UInt64.lt_iff_toNat_lt] at hb
    exact ⟨hes, hb.trans_le hbound, by simpa [BafsVolume.treeState] using hnext⟩
  simp only [returnFreedBlock, ends_bind, ends_get, ends_onTree]
  refine (ends_freeBlocks h.records (h.tree.represents sec) ⟨b, 1⟩ hroom').mono ?_
    fun _ _ hf => hf.of_false
  rintro root' s' ⟨t', freed, hrep, hlt, hes'⟩
  simp only [setFreeExtentRoot, ends_modify]
  refine ends_addU64 (fun hcount => ?_) fun hover => by_contra fun hp => ?_
  · refine ⟨t', freed, ⟨?_, rfl, ⟨?_, hes'⟩, ?_, hrep.rewritten, fun a ha => ?_, hlt, ?_⟩,
      hrep.freedBlocks⟩
    · exact ⟨rfl, rfl, rfl, hrep.extends_.next_le, hrep.extends_.grows⟩
    · exact ⟨hrep.represents.root, hrep.represents.stored, hrep.represents.below⟩
    · exact toNat_add_of_lt hcount
    · rcases hrep.rewritten.freed a ha with ha | ha
      · exact (h.tree.below a ha).trans_le hrep.extends_.next_le
      · exact ha.2
    · exact hrep.next_le
  · have := (hroom hp).count
    have h1 : (1 : UInt64).toNat = 1 := rfl
    rw [h1] at hover
    omega

/-! ## A list of blocks -/

theorem belowBoundary_cons_of_le {boundary b : UInt64} {bs : List UInt64} (h : boundary ≤ b) :
    belowBoundary boundary (b :: bs) = belowBoundary boundary bs := by
  rw [belowBoundary, List.filter_cons_of_neg (by simpa using h)]
  rfl

theorem belowBoundary_cons_of_lt {boundary b : UInt64} {bs : List UInt64} (h : b < boundary) :
    belowBoundary boundary (b :: bs) = b :: belowBoundary boundary bs := by
  rw [belowBoundary, List.filter_cons_of_pos (by simpa using h)]
  rfl

theorem mem_belowBoundary {boundary b : UInt64} {bs : List UInt64} :
    b ∈ belowBoundary boundary bs ↔ b ∈ bs ∧ b < boundary := by
  simp [belowBoundary]

theorem ends_returnFreedBlocks {boundary : UInt64} (bs sec : List UInt64) (h : v.HasFree t es)
    (hboundary : v.superblock.nextCowBlockAddress = boundary)
    (hroom : ¬ P → RecycleRoom bound (belowBoundary boundary bs).length v es) :
    Ends (returnFreedBlocks boundary g bs sec) v
      (fun sec' v' => ∃ t' freed, Returned (belowBoundary boundary bs) freed v t es v' t' ∧
        sec' = sec ++ freed.map UInt64.ofNat)
      (Fails (fun _ _ => False) P) := by
  induction bs generalizing v t es sec with
  | nil => exact ⟨t, [], .refl h, by simp⟩
  | cons b bs ih =>
      rw [returnFreedBlocks, ends_ite]
      refine ⟨fun hle => ?_, fun hlt => ?_⟩
      · rw [belowBoundary_cons_of_le hle] at hroom ⊢
        exact ih sec h hboundary hroom
      · have hlt : b < boundary := UInt64.not_le.mp hlt
        rw [belowBoundary_cons_of_lt hlt] at hroom ⊢
        rw [ends_bind]
        refine (ends_returnFreedBlock h b sec (hboundary ▸ hlt) fun hp =>
          (hroom hp).mono (by simp)).imp ?_
        rintro sec₁ v₁ ⟨t₁, freed₁, hr₁, rfl⟩
        refine (ih _ hr₁.free (hr₁.boundary.trans hboundary) fun hp =>
          (hroom hp).returned hr₁ ?_ (by simp [Nat.add_comm])).imp ?_
        · intro b' hb'
          rw [List.mem_singleton.mp hb', hboundary]
          exact hlt
        · rintro sec₂ v₂ ⟨t₂, freed₂, hr₂, rfl⟩
          exact ⟨t₂, freed₁ ++ freed₂, hr₁.trans hr₂, by simp⟩

/-! ## All levels -/

/-- What returning `bs` leaves: `returned` went back, first those of `bs` below the boundary. -/
structure Recycled (bs : List UInt64) (returned : List UInt64) (v : BafsVolume) (t : BafsTree)
    (es : List BafsFreeExtent) (v' : BafsVolume) (t' : BafsTree) : Prop where
  done : ∃ freed, Returned returned freed v t es v' t'
  first : belowBoundary v.superblock.nextCowBlockAddress bs <+: returned
  below : ∀ b ∈ returned, b < v.superblock.nextCowBlockAddress
  mem : ∀ b ∈ returned, b ∈ bs ∨ b.toNat ∈ t.blocks
  length_le : returned.length + 2 * nodesBelow v.superblock.nextCowBlockAddress t' ≤
    (belowBoundary v.superblock.nextCowBlockAddress bs).length +
      2 * nodesBelow v.superblock.nextCowBlockAddress t
  root : belowBoundary v.superblock.nextCowBlockAddress bs ≠ [] →
    t.addr < v.superblock.nextCowBlockAddress.toNat →
      (belowBoundary v.superblock.nextCowBlockAddress bs).length < returned.length
  root_mem : belowBoundary v.superblock.nextCowBlockAddress bs ≠ [] →
    t.addr < v.superblock.nextCowBlockAddress.toNat → UInt64.ofNat t.addr ∈ returned
  once : Keeps v.superblock.nextCowBlockAddress t t' →
    ∀ b : UInt64, b < v.superblock.nextCowBlockAddress →
      returned.count b + t'.blocks.count b.toNat ≤
        (belowBoundary v.superblock.nextCowBlockAddress bs).count b + t.blocks.count b.toNat

/-- Nothing is left to return. -/
theorem Recycled.nil (h : v.HasFree t es) : Recycled [] [] v t es v t where
  done := ⟨[], .refl h⟩
  first := List.prefix_rfl
  below _ hb := absurd hb List.not_mem_nil
  mem _ hb := absurd hb List.not_mem_nil
  length_le := Nat.le_refl _
  root h := absurd rfl h
  root_mem h := absurd rfl h
  once _ _ _ := Nat.le_refl _

/-- One level, and then the levels that it leads to. -/
theorem Recycled.cons {bs bs' : List UInt64} {freed : List Nat} {v₁ v₂ : BafsVolume}
    {t₁ t₂ : BafsTree}
    (hle : v.superblock.nextCowBlockAddress.toNat ≤ v.nextFreeBlock.toNat)
    (hr : Returned (belowBoundary v.superblock.nextCowBlockAddress bs) freed v t es v₁ t₁)
    (hrest : Recycled (freed.map UInt64.ofNat) bs' v₁ t₁
      (freeAll (belowBoundary v.superblock.nextCowBlockAddress bs) es) v₂ t₂) :
    Recycled bs (belowBoundary v.superblock.nextCowBlockAddress bs ++ bs') v t es v₂ t₂ := by
  have hboundary := hr.boundary
  obtain ⟨⟨freed', hdone⟩, hfirst, hbelow, hmem, hlen, -, -, honce⟩ := hrest
  rw [hboundary] at hfirst hbelow hlen honce
  have hold : ∀ a : UInt64, a < v.superblock.nextCowBlockAddress →
      ¬ v.nextFreeBlock.toNat ≤ a.toNat := fun a ha => by
    rw [UInt64.lt_iff_toNat_lt] at ha
    omega
  -- the first block that is returned supersedes the root of the free-extent tree
  have hroot : belowBoundary v.superblock.nextCowBlockAddress bs ≠ [] →
      t.addr < v.superblock.nextCowBlockAddress.toNat → UInt64.ofNat t.addr ∈ bs' := by
    intro hne haddr
    have hfreed : t.addr ∈ freed := by
      refine (hr.rewritten.addr.resolve_left fun h => ?_).2
      have := hr.le_next
      have := List.length_pos_of_ne_nil hne
      have := h.2
      dsimp only at this
      omega
    refine hfirst.subset (mem_belowBoundary.mpr ⟨List.mem_map_of_mem hfreed, ?_⟩)
    rw [UInt64.lt_iff_toNat_lt,
      toNat_ofNat_of_lt (haddr.trans v.superblock.nextCowBlockAddress.toNat_lt)]
    exact haddr
  refine ⟨⟨_, hr.trans hdone⟩, List.prefix_append _ _, fun b hb => ?_, fun b hb => ?_, ?_,
    fun hne haddr => ?_, fun hne haddr => List.mem_append_right _ (hroot hne haddr),
    fun hkeeps b hb => ?_⟩
  · exact (List.mem_append.mp hb).elim (fun hb => (mem_belowBoundary.mp hb).2) (hbelow b)
  · rcases List.mem_append.mp hb with hb | hb
    · exact .inl (mem_belowBoundary.mp hb).1
    · refine .inr ?_
      have hlt := hold b (hbelow b hb)
      rcases hmem b hb with hb | hb
      · obtain ⟨a, ha, rfl⟩ := List.mem_map.mp hb
        have ha' := toNat_ofNat_of_lt ((hr.below a ha).trans v₁.nextFreeBlock.toNat_lt)
        rw [ha'] at hlt ⊢
        exact (hr.rewritten.freed a ha).resolve_right fun h => hlt h.1
      · exact (hr.rewritten.blocks _ hb).resolve_right fun h => hlt h.1
  · have := hr.length_belowBoundary hle
    rw [List.length_append]
    omega
  · have := List.length_pos_of_mem (hroot hne haddr)
    rw [List.length_append]
    omega
  · obtain ⟨hkeeps₁, hkeeps₂⟩ := hkeeps.split (.of_rewritten hr.rewritten hle)
      (.of_rewritten hdone.rewritten (hle.trans hr.advances.next_le))
    have hlevel := count_belowBoundary_le hr.rewritten
      (fun a ha => (hr.below a ha).trans v₁.nextFreeBlock.toNat_lt) hle hkeeps₁ hb
    have hrest := honce hkeeps₂ b hb
    rw [List.count_append]
    omega

/-- **Recycling** ends, and panics only without room. -/
theorem ends_returnFreedLoop (fuel : Nat) (bs : List UInt64) (h : v.HasFree t es)
    (hle : v.superblock.nextCowBlockAddress.toNat ≤ v.nextFreeBlock.toNat)
    (hfuel : 2 ^ 64 + 1 ≤ fuel + v.nextFreeBlock.toNat)
    (hroom : ¬ P → RecycleRoom bound
      ((belowBoundary v.superblock.nextCowBlockAddress bs).length +
        2 * nodesBelow v.superblock.nextCowBlockAddress t) v es) :
    Ends (returnFreedLoop fuel bs) v
      (fun _ v' => ∃ returned t', Recycled bs returned v t es v' t')
      (Fails (fun _ _ => False) P) := by
  induction fuel generalizing v t es bs with
  | zero =>
      have := v.nextFreeBlock.toNat_lt
      omega
  | succ fuel ih =>
      have hnext := v.nextFreeBlock.toNat_lt
      cases bs with
      | nil => exact ⟨[], t, .nil h⟩
      | cons b bs =>
          simp only [returnFreedLoop, ends_bind, ends_get]
          refine (ends_returnFreedBlocks (b :: bs) [] h rfl fun hp =>
            (hroom hp).mono (Nat.le_add_right _ _)).imp ?_
          rintro sec v₁ ⟨t₁, freed, hr, rfl⟩
          rw [List.nil_append]
          by_cases hempty : belowBoundary v.superblock.nextCowBlockAddress (b :: bs) = []
          · -- no block was below the boundary: the next call is the last one
            have hfreed : freed = [] := by
              have := hr.rewritten.length_freed_le
              rw [hempty] at this
              exact List.eq_nil_of_length_eq_zero (by simpa using this)
            obtain ⟨fuel, rfl⟩ : ∃ f, fuel = f + 1 := ⟨fuel - 1, by omega⟩
            subst hfreed
            exact ⟨_, t₁, .cons hle hr (.nil hr.free)⟩
          · have hgrow := hr.le_next
            have hpos := List.length_pos_of_ne_nil hempty
            have hcount := hr.length_belowBoundary hle
            have hboundary := hr.boundary
            refine (ih (freed.map UInt64.ofNat) hr.free (by rw [hboundary]; omega) (by omega)
              fun hp => ?_).imp ?_
            · refine (hroom hp).returned hr (fun b hb => (mem_belowBoundary.mp hb).2) ?_
              rw [hboundary]
              omega
            · rintro - v₂ ⟨returned, t₂, hrest⟩
              exact ⟨_, t₂, .cons hle hr hrest⟩

end Loop

/-- **Contract of recycling**. -/
theorem ends_returnFreed {v : BafsVolume} {t : BafsTree} {es : List BafsFreeExtent} {P : Prop}
    {bound : Nat} (bs : List UInt64) (h : v.HasFree t es)
    (hle : v.superblock.nextCowBlockAddress.toNat ≤ v.nextFreeBlock.toNat)
    (hroom : ¬ P → RecycleRoom bound
      ((belowBoundary v.superblock.nextCowBlockAddress bs).length +
        2 * nodesBelow v.superblock.nextCowBlockAddress t) v es) :
    Ends (returnFreedCowBlocksToFreeExtentTree bs) v
      (fun _ v' => ∃ returned t', Recycled bs returned v t es v' t')
      (Fails (fun _ _ => False) P) :=
  ends_returnFreedLoop treeFuel bs h hle (Nat.le_add_right _ _) hroom

end Bafs
