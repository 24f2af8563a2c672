import Mathlib.Algebra.BigOperators.Group.Finset.Basic
import Nachos.FileSys.Simulation

/-!
# The file system: nothing is lost

In every run from a formatted disk, the sectors that are clear and those that the files take are
together what formatting left, each sector in use is used for one thing, and no request fails.
-/

namespace Nachos.FileSys

open Lib Lib.Mem

/-! ### The accounts of `Files` -/

namespace Files

variable {a a' : Files}

/-- The sectors that the file of this name takes. -/
def cost (a : Files) (n : List Byte) : Nat := (a.bytes n).elim 0 fun l => sectorsOf l.length

/-- What is left and what the files take is what a formatted disk has. -/
def Accounted (a : Files) : Prop :=
  ∃ names : Finset (List Byte), (∀ n, n ∈ names ↔ a.bytes n ≠ none) ∧
    a.sectors + ∑ n ∈ names, a.cost n = 1019

theorem cost_update_of_ne {n n' : List Byte} {l : Option (List Byte)} (h : n' ≠ n) :
    (a.setBytes n l).cost n' = a.cost n' :=
  congrArg (fun o : Option (List Byte) => o.elim 0 fun l => sectorsOf l.length)
    (Function.update_of_ne h _ _)

theorem put_length (l : List Byte) (source : Mem) (numBytes : Int) (position : Nat) :
    (put l source numBytes position).length = l.length := by
  unfold put
  by_cases h : position + moved l numBytes position ≤ l.length
  · exact overwrite_length (by rw [List.length_map, List.length_range]; exact h)
  · have hzero : moved l numBytes position = 0 := by
      unfold moved at h ⊢
      omega
    rw [hzero, overwrite, List.range_zero, List.map_nil, List.append_nil, List.length_append,
      List.length_take, List.length_drop, List.length_nil]
    omega

/-- Files of the same lengths under the same names take the same. -/
theorem Accounted.congr (h : a.Accounted) (hsectors : a'.sectors = a.sectors)
    (hbytes : ∀ n, (a'.bytes n).map List.length = (a.bytes n).map List.length) :
    a'.Accounted := by
  obtain ⟨names, hnames, hsum⟩ := h
  refine ⟨names, fun n => ?_, ?_⟩
  · have hnone : (a.bytes n).map List.length = none ↔ (a'.bytes n).map List.length = none := by
      rw [hbytes]
    rw [Option.map_eq_none_iff, Option.map_eq_none_iff] at hnone
    rw [hnames, Ne, Ne, hnone]
  · rw [hsectors, ← hsum]
    congr 1
    refine Finset.sum_congr rfl fun n _ => ?_
    have hn := hbytes n
    unfold cost
    cases hl : a.bytes n with
    | none =>
      rw [hl] at hn
      rw [Option.map_eq_none_iff.mp hn]
    | some l =>
      rw [hl] at hn
      obtain ⟨l', hl', hlength⟩ := Option.map_eq_some_iff.mp hn
      rw [hl', Option.elim_some, Option.elim_some, hlength]

theorem length_setBytes {n l l' : List Byte} (hl : a.bytes n = some l)
    (hlength : l'.length = l.length) (n' : List Byte) :
    ((a.setBytes n (some l')).bytes n').map List.length = (a.bytes n').map List.length := by
  show (Function.update a.bytes n _ n').map _ = _
  by_cases hn : n' = n
  · rw [hn, Function.update_self, hl, Option.map_some, Option.map_some, hlength]
  · rw [Function.update_of_ne hn]

/-- **Each request keeps the accounts.** -/
theorem Step.accounted {r : Request × Answer} (h : Step a r a') (ha : a.Accounted) :
    a'.Accounted := by
  cases h with
  | @created name size l hname hentry hsectors hlength =>
    obtain ⟨names, hnames, hsum⟩ := ha
    have hnot : cString FileNameMaxLen name ∉ names := fun hmem => (hnames _).mp hmem hname
    refine ⟨insert (cString FileNameMaxLen name) names, fun n => ?_, ?_⟩
    · rw [Finset.mem_insert, hnames]
      show _ ↔ Function.update a.bytes _ _ n ≠ none
      by_cases hn : n = cString FileNameMaxLen name
      · subst hn
        simp
      · rw [Function.update_of_ne hn]
        simp [hn]
    · show a.sectors - sectorsOf size.toNat +
        ∑ n ∈ _, (a.setBytes (cString FileNameMaxLen name) (some l)).cost n = _
      have hnew : (a.setBytes (cString FileNameMaxLen name) (some l)).cost
          (cString FileNameMaxLen name) = sectorsOf size.toNat := by
        have hself : (a.setBytes (cString FileNameMaxLen name) (some l)).bytes
            (cString FileNameMaxLen name) = some l := Function.update_self ..
        rw [cost, hself, Option.elim_some, ← hlength, Int.toNat_natCast]
      rw [Finset.sum_insert hnot, hnew, Finset.sum_congr rfl fun n hn =>
        cost_update_of_ne (ne_of_mem_of_not_mem hn hnot)]
      omega
  | @removed name l hname =>
    obtain ⟨names, hnames, hsum⟩ := ha
    have hmem : cString FileNameMaxLen name ∈ names := (hnames _).mpr (by rw [hname]; simp)
    refine ⟨names.erase (cString FileNameMaxLen name), fun n => ?_, ?_⟩
    · rw [Finset.mem_erase, hnames]
      show _ ↔ Function.update a.bytes _ _ n ≠ none
      by_cases hn : n = cString FileNameMaxLen name
      · subst hn
        simp
      · rw [Function.update_of_ne hn]
        simp [hn]
    · show a.sectors + sectorsOf l.length +
        ∑ n ∈ _, (a.setBytes (cString FileNameMaxLen name) none).cost n = _
      have hold : a.cost (cString FileNameMaxLen name) = sectorsOf l.length := by
        unfold cost
        rw [hname, Option.elim_some]
      rw [Finset.sum_congr rfl fun n hn => cost_update_of_ne (Finset.ne_of_mem_erase hn)]
      have hsplit := Finset.add_sum_erase names a.cost hmem
      omega
  | write hk hl => exact ha.congr rfl (length_setBytes hl (put_length _ _ _ _))
  | writeAt hk hl => exact ha.congr rfl (length_setBytes hl (put_length _ _ _ _))
  | _ => exact ha

theorem accounted_empty : empty.Accounted := ⟨∅, fun n => by simp [empty], rfl⟩

end Files

/-! ### The accounts of the disk -/

namespace FileSystem

/-- The sectors that an entry of the directory takes. -/
def taken (fs : FileSystem) (disk : Mem) (e : Nat) : Nat :=
  (fs.file disk e).elim 0 fun f => sectorsOf (FileSys.header disk f.2).numBytes.toNat

end FileSystem

open FileSystem

/-- The sum over the names is the sum over the entries. -/
theorem Abstracts.sum_cost {s : State} {a : Files} (h : Abstracts s a) {names : Finset (List Byte)}
    (hnames : ∀ n, n ∈ names ↔ a.bytes n ≠ none) :
    ∑ n ∈ names, a.cost n = ∑ e ∈ Finset.range NumDirEntries, s.fs.taken s.disk e := by
  obtain ⟨name, hname⟩ : ∃ name : Nat → List Byte, ∀ e f, s.fs.file s.disk e = some f →
      name e = f.1 := by
    refine ⟨fun e => (s.fs.file s.disk e).elim [] Prod.fst, fun e f hf => ?_⟩
    show (s.fs.file s.disk e).elim [] Prod.fst = f.1
    rw [hf]
    rfl
  obtain ⟨used, hused⟩ : ∃ used : Finset Nat, used =
    (Finset.range NumDirEntries).filter fun e => s.fs.file s.disk e ≠ none := ⟨_, rfl⟩
  have hfile : ∀ e ∈ used, ∃ b, s.fs.file s.disk e = some (name e, b) := by
    intro e he
    rw [hused] at he
    obtain ⟨f, hf⟩ := Option.ne_none_iff_exists'.mp (Finset.mem_filter.mp he).2
    exact ⟨f.2, by rw [hname e f hf, hf]⟩
  have himage : names = used.image name := by
    ext n
    rw [hnames, Finset.mem_image]
    constructor
    · intro hn
      obtain ⟨e, b, hf⟩ := h.only n hn
      refine ⟨e, ?_, hname e _ hf⟩
      rw [hused, Finset.mem_filter, Finset.mem_range, hf]
      exact ⟨(file_some hf).1, by simp⟩
    · rintro ⟨e, he, rfl⟩
      obtain ⟨b, hf⟩ := hfile e he
      rw [(h.named e _ b hf).2]
      simp
  have hinj : Set.InjOn name used := by
    intro e he e' he' heq
    obtain ⟨b, hf⟩ := hfile e he
    obtain ⟨b', hf'⟩ := hfile e' he'
    rw [← heq] at hf'
    exact h.good.names e e' _ b b' hf hf'
  rw [himage, Finset.sum_image hinj]
  have hzero : ∀ e ∈ Finset.range NumDirEntries, e ∉ used → s.fs.taken s.disk e = 0 := by
    intro e he hnot
    rw [hused, Finset.mem_filter, not_and, not_not] at hnot
    rw [FileSystem.taken, hnot he]
    rfl
  rw [← Finset.sum_subset (by rw [hused]; exact Finset.filter_subset ..) hzero]
  refine Finset.sum_congr rfl fun e he => ?_
  obtain ⟨b, hf⟩ := hfile e he
  rw [Files.cost, (h.named e _ b hf).2, FileSystem.taken, hf, Option.elim_some, Option.elim_some,
    FileHeader.contents_length]

namespace State

variable {s₀ s : State} {l : List (Request × Answer)}

/-- **Nothing is lost**: the clear sectors and those of the files are what formatting left. -/
theorem Run.no_sector_lost (h : Run s₀ l s) :
    (s.fs.freeMap s.disk).NumClear +
      ((∑ e ∈ Finset.range NumDirEntries, s.fs.taken s.disk e : Nat) : Int) = 1019 := by
  obtain ⟨a, hpath, ha⟩ := h.abstracts
  obtain ⟨names, hnames, hsum⟩ :=
    hpath.invariant (fun _ _ _ hi hstep => hstep.accounted hi) Files.accounted_empty
  rw [← ha.sum_cost hnames, ← ha.sectors]
  omega

/-- **A sector in use is used for one thing**, and the bitmap marks exactly these. -/
theorem Run.one_use_per_sector (h : Run s₀ l s) :
    (∀ u b, s.fs.place s.disk u = some b → b < NumSectors) ∧
    ∀ b < NumSectors, if (s.fs.freeMap s.disk).bit b then ∃! u, s.fs.place s.disk u = some b
      else ∀ u, s.fs.place s.disk u ≠ some b := by
  obtain ⟨a, -, ha⟩ := h.abstracts
  refine ⟨fun u b => ha.good.place_lt, fun b hb => ?_⟩
  split
  · rename_i hbit
    obtain ⟨u, hu⟩ := (ha.good.marked b hb).mp hbit
    exact ⟨u, hu, fun v hv => ha.good.placed v u b hv hu⟩
  · rename_i hbit
    exact fun u hu => hbit ((ha.good.marked b hb).mpr ⟨u, hu⟩)

/-- **No careful request fails**, whatever `new` leaves in memory. -/
theorem Run.every_request_served (h : Run s₀ l s) (junk : Mem) (r : Request) (hcareful : Careful s r) :
    ∃ answer s', s.serve junk r = some (answer, s') ∧ Run s₀ (l ++ [(r, answer)]) s' := by
  obtain ⟨a, -, ha⟩ := h.abstracts
  obtain ⟨answer, s', a', hserve, -, -⟩ := ha.serve junk r hcareful
  exact ⟨answer, s', hserve, h.1, h.2.snoc ⟨⟨junk, hserve⟩, hcareful⟩⟩

/-- **The answers are those of `Files`**, and the files of the disk those of its state. -/
theorem Run.refines_files (h : Run s₀ l s) :
    ∃ a, Path Files.Step .empty l a ∧
      (∀ n bytes, a.bytes n = some bytes ↔ ∃ e b, s.fs.file s.disk e = some (n, b) ∧
        (header s.disk b).contents s.disk = bytes) ∧
      ∀ k, a.handles k = (s.opened k).map fun f => (f.1, f.2.seekPosition) := by
  obtain ⟨a, hpath, ha⟩ := h.abstracts
  refine ⟨a, hpath, fun n bytes => ⟨fun hn => ?_, ?_⟩, ha.handles⟩
  · obtain ⟨e, b, hf⟩ := ha.only n (by rw [hn]; simp)
    exact ⟨e, b, hf, Option.some.inj ((ha.named e n b hf).2.symm.trans hn)⟩
  · rintro ⟨e, b, hf, rfl⟩
    exact (ha.named e n b hf).2

/-! ### A run -/

/-- A run goes on with the answer of `Files`. -/
theorem Run.next {a : Files} (h : Run s₀ l s) (ha : Abstracts s a) (r : Request)
    (hcareful : Careful s r) :
    ∃ answer s' a', Run s₀ (l ++ [(r, answer)]) s' ∧ Files.Step a (r, answer) a' ∧
      Abstracts s' a' := by
  obtain ⟨answer, s', a', hserve, hstep, ha'⟩ := ha.serve (fun _ => 0) r hcareful
  exact ⟨answer, s', a', ⟨h.1, h.2.snoc ⟨⟨_, hserve⟩, hcareful⟩⟩, hstep, ha'⟩

/-- A file name of one letter. -/
def note : Nat → Byte := fun i => if i = 0 then 110 else 0

def noteDay : List (Request × Answer) :=
  [(.create note 200, .done true), (.openAs 0 note, .done true),
    (.write 0 (fun i => BitVec.ofNat 8 i) 130, .count 130)]

/-- A file is created, opened, and written across the end of a sector. -/
theorem noteDay_run : ∃ s₀ s f, Run s₀ noteDay s ∧ s.opened 0 = some f := by
  obtain ⟨fs, disk, hformat, -⟩ := format_good (fun _ => 0) fun _ => 0
  obtain ⟨s₀, hs₀⟩ : ∃ s₀ : State, s₀ = ⟨disk, fs, fun _ => none⟩ := ⟨_, rfl⟩
  have hinit : s₀.Initial := ⟨_, _, by rw [hs₀]; exact hformat, by rw [hs₀]⟩
  have hstart : Run s₀ [] s₀ := ⟨hinit, .nil s₀⟩
  obtain ⟨_, s₁, a₁, hrun₁, hstep₁, ha₁⟩ := hstart.next hinit.abstracts (.create note 200)
    ⟨by decide, by decide⟩
  cases hstep₁ with
  | refused hwhy =>
    rcases hwhy with hname | hentries | hsectors
    · exact absurd rfl hname
    · cases hentries
    · exact absurd hsectors (by decide)
  | @created _ _ bytes _ _ _ hlength =>
    have hbytes := Files.empty.setBytes_self (key note) (some bytes)
    obtain ⟨_, s₂, a₂, hrun₂, hstep₂, ha₂⟩ := hrun₁.next ha₁ (.openAs 0 note) trivial
    cases hstep₂ with
    | notOpened hname => cases hname.symm.trans hbytes
    | opened _ =>
      have hhandle := ha₂.handles 0
      obtain ⟨f, hf, hposition⟩ := Option.map_eq_some_iff.mp
        (hhandle.symm.trans (Files.setHandle_self _ 0 _))
      have hzero : f.2.seekPosition = 0 := congrArg Prod.snd hposition
      obtain ⟨_, s₃, a₃, hrun₃, hstep₃, ha₃⟩ := hrun₂.next ha₂
        (.write 0 (fun i => BitVec.ofNat 8 i) 130) ⟨f, hf, by rw [hzero]; decide⟩
      cases hstep₃ with
      | @write _ p n _ _ _ hk hl =>
        obtain ⟨rfl, rfl⟩ := Prod.mk.inj (Option.some.inj (hk.symm.trans
          (Files.setHandle_self _ 0 _)))
        cases hl.symm.trans hbytes
        have hmoved : Files.moved bytes 130 0 = 130 := by
          unfold Files.moved
          omega
        obtain ⟨f', hf', -⟩ := Option.map_eq_some_iff.mp
          ((ha₃.handles 0).symm.trans (Files.setHandle_self _ 0 _))
        rw [hmoved] at hrun₃
        exact ⟨s₀, s₃, f', hrun₃, hf'⟩

theorem noteDay_no_sector_lost : ∃ s₀ s, Run s₀ noteDay s ∧
    (s.fs.freeMap s.disk).NumClear +
      ((∑ e ∈ Finset.range NumDirEntries, s.fs.taken s.disk e : Nat) : Int) = 1019 := by
  obtain ⟨s₀, s, -, h, -⟩ := noteDay_run
  exact ⟨s₀, s, h, h.no_sector_lost⟩

theorem noteDay_one_use_per_sector : ∃ s₀ s, Run s₀ noteDay s ∧
    (∀ u b, s.fs.place s.disk u = some b → b < NumSectors) ∧
    ∀ b < NumSectors, if (s.fs.freeMap s.disk).bit b then ∃! u, s.fs.place s.disk u = some b
      else ∀ u, s.fs.place s.disk u ≠ some b := by
  obtain ⟨s₀, s, -, h, -⟩ := noteDay_run
  exact ⟨s₀, s, h, h.one_use_per_sector⟩

theorem noteDay_request_served : ∃ s₀ s, Run s₀ noteDay s ∧
    ∃ answer s', s.serve (fun _ => 1) (.readAt 0 50 100) = some (answer, s') ∧
      Run s₀ (noteDay ++ [(.readAt 0 50 100, answer)]) s' := by
  obtain ⟨s₀, s, f, h, hf⟩ := noteDay_run
  exact ⟨s₀, s, h, h.every_request_served _ _ ⟨⟨f, hf⟩, by decide⟩⟩

theorem noteDay_refines_files : ∃ s₀ s, Run s₀ noteDay s ∧
    ∃ a, Path Files.Step .empty noteDay a ∧
      (∀ n bytes, a.bytes n = some bytes ↔ ∃ e b, s.fs.file s.disk e = some (n, b) ∧
        (header s.disk b).contents s.disk = bytes) ∧
      ∀ k, a.handles k = (s.opened k).map fun f => (f.1, f.2.seekPosition) := by
  obtain ⟨s₀, s, -, h, -⟩ := noteDay_run
  exact ⟨s₀, s, h, h.refines_files⟩

end State

end Nachos.FileSys
