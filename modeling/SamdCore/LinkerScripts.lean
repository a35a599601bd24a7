import SamdCore.LocationCounter
import SamdCore.ResetHandler

/-!
The linker scripts, and what `Reset_Handler` makes of the memory that they lay out.

The two scripts differ in where the flash begins and in what precedes the exception
table. A program is the input sections that their patterns match, and `.ramfunc`, which
no pattern does and the linker puts behind `.text`; the commented-out tables and the
aliases that are only provided are left out.
-/
namespace SamdCore
open LocationCounter

/-- `flash_with_bootloader.ld` and `flash_without_bootloader.ld` -/
inductive Script
  | withBootloader
  | withoutBootloader
deriving DecidableEq

/-- The input sections of each pattern; those of the constructors' and of the sorted
patterns in the order of the patterns. -/
structure Program where
  sketchBoot : List InputSection
  isrVector : List InputSection
  text : List InputSection
  init : List InputSection
  fini : List InputSection
  ctors : List InputSection
  dtors : List InputSection
  rodata : List InputSection
  ehFrame : List InputSection
  ramfunc : List InputSection
  armExtab : List InputSection
  armExidx : List InputSection
  vtable : List InputSection
  data : List InputSection
  preinitArray : List InputSection
  initArray : List InputSection
  finiArray : List InputSection
  jcr : List InputSection
  bss : List InputSection
  common : List InputSection
  heap : List InputSection
  stack : List InputSection

inductive Symbol
  | textStart
  | exidxStart
  | exidxEnd
  | etext
  | dataStart
  | preinitArrayStart
  | preinitArrayEnd
  | initArrayStart
  | initArrayEnd
  | finiArrayStart
  | finiArrayEnd
  | dataEnd
  | bssStart
  | bssEnd
  | endOfBss
  | heapLimit
  | stackTop
  | stackLimit
  | ramEnd
deriving DecidableEq

abbrev SymbolTable := Symbol → Option Nat

namespace Script

def flashOrigin : Script → Nat
  | withBootloader => 0x00000000 + 0x2000
  | withoutBootloader => 0x00000000

def flashLength : Script → Nat
  | withBootloader => 0x00040000 - 0x2000
  | withoutBootloader => 0x00040000

/-- What the `.text` section has before the exception table. -/
def boot (P : Program) : Script → List (Statement Symbol)
  | withBootloader => [.input P.sketchBoot, .align 0x2000]
  | withoutBootloader => []

def textSection (S : Script) (P : Program) : List (Statement Symbol) :=
  .symbol .textStart :: (S.boot P ++ [.input P.isrVector, .input P.text, .input P.init,
    .input P.fini, .input P.ctors, .input P.dtors, .input P.rodata, .input P.ehFrame])

end Script

namespace Program
variable (P : Program)

def ramOrigin : Nat := 0x20000000
def ramLength : Nat := 0x00008000

def dataSection : List (Statement Symbol) :=
  [.symbol .dataStart, .input P.vtable, .input P.data,
    .align 4, .symbol .preinitArrayStart, .input P.preinitArray, .symbol .preinitArrayEnd,
    .align 4, .symbol .initArrayStart, .input P.initArray, .symbol .initArrayEnd,
    .align 4, .symbol .finiArrayStart, .input P.finiArray, .symbol .finiArrayEnd,
    .input P.jcr, .align 16, .symbol .dataEnd]

def bssSection : List (Statement Symbol) :=
  [.align 4, .symbol .bssStart, .input P.bss, .input P.common, .align 4, .symbol .bssEnd]

def heapSection : List (Statement Symbol) :=
  [.symbol .endOfBss, .input P.heap, .symbol .heapLimit]

/-- What is placed in `FLASH`, up to `__etext`. -/
def flash (S : Script) : Counter Symbol :=
  let text := outputSection ⟨S.flashOrigin, fun _ => none⟩ (S.textSection P)
  let ramfunc := outputSection text [.input P.ramfunc]
  let extab := outputSection ramfunc [.input P.armExtab]
  let exidx := outputSection (extab.set .exidxStart) [.input P.armExidx]
  (exidx.set .exidxEnd).set .etext

def dataPlaced (S : Script) : Counter Symbol :=
  outputSection { P.flash S with dot := ramOrigin } P.dataSection

def bssPlaced (S : Script) : Counter Symbol := outputSection (P.dataPlaced S) P.bssSection

def heapPlaced (S : Script) : Counter Symbol := outputSection (P.bssPlaced S) P.heapSection

def stackTop : Nat := ramOrigin + ramLength

/-- `__StackTop - SIZEOF(.stack_dummy)` -/
def stackLimit (S : Script) : Nat :=
  let stackDummy := [Statement.input (σ := Symbol) P.stack]
  let start := alignUp (P.heapPlaced S).dot (maxAlign stackDummy)
  stackTop - ((outputSection (P.heapPlaced S) stackDummy).dot - start)

/-- The symbols of a program that links: nothing overflows its region, and the heap ends
before the stack. -/
def link (S : Script) : Option SymbolTable :=
  if (P.flash S).dot ≤ S.flashOrigin + S.flashLength ∧
      (P.bssPlaced S).dot ≤ ramOrigin + ramLength ∧
      (P.heapPlaced S).dot ≤ P.stackLimit S then
    some ((((P.heapPlaced S).assign .stackTop stackTop).assign .stackLimit
      (P.stackLimit S)).assign .ramEnd (ramOrigin + ramLength - 1)).symbols
  else none

/-- What is put between `__data_start__` and `__data_end__`. -/
def initialised : List InputSection :=
  P.vtable ++ P.data ++ P.preinitArray ++ P.initArray ++ P.finiArray ++ P.jcr

variable {P : Program} {S : Script} {symbols : SymbolTable}

/-- The two scripts end the flash at the same place, below the RAM. -/
theorem flash_end (S : Script) : S.flashOrigin + S.flashLength = 0x40000 := by
  cases S <;> rfl

theorem dataSection_valid : ∀ x ∈ P.dataSection, x.Valid := by
  simp [dataSection, Statement.Valid]

theorem bssSection_valid : ∀ x ∈ P.bssSection, x.Valid := by
  simp [bssSection, Statement.Valid]

/-- `.data` starts the RAM, aligned to its strictest section. -/
def dataStart (P : Program) : Nat := alignUp ramOrigin (maxAlign P.dataSection)

theorem heapPlaced_symbols {name : Symbol} (unset : ∀ x ∈ P.heapSection, x ≠ .symbol name) :
    (P.heapPlaced S).symbols name = (P.bssPlaced S).symbols name :=
  outputSection_symbols _ unset

theorem bssPlaced_symbols {name : Symbol} (unset : ∀ x ∈ P.bssSection, x ≠ .symbol name) :
    (P.bssPlaced S).symbols name = (P.dataPlaced S).symbols name :=
  outputSection_symbols _ unset

theorem etext_eq : (P.heapPlaced S).symbols .etext = some (P.flash S).dot := by
  rw [heapPlaced_symbols (by simp [heapSection]), bssPlaced_symbols (by simp [bssSection]),
    dataPlaced, outputSection_symbols _ (by simp [dataSection])]
  exact Counter.set_symbols _ Symbol.etext

theorem dataStart_eq : (P.heapPlaced S).symbols .dataStart = some P.dataStart := by
  rw [heapPlaced_symbols (by simp [heapSection]), bssPlaced_symbols (by simp [bssSection])]
  exact run_symbol _ [] (by simp)

theorem dataEnd_eq : (P.heapPlaced S).symbols .dataEnd = some (P.dataPlaced S).dot := by
  rw [heapPlaced_symbols (by simp [heapSection]), bssPlaced_symbols (by simp [bssSection])]
  exact outputSection_last _ (P.dataSection.take 17)

theorem bssEnd_eq : (P.heapPlaced S).symbols .bssEnd = some (P.bssPlaced S).dot := by
  rw [heapPlaced_symbols (by simp [heapSection])]
  exact outputSection_last _ (P.bssSection.take 5)

/-- `.bss` starts aligned to its strictest section, and to a word. -/
def bssStart (P : Program) (S : Script) : Nat :=
  alignUp (alignUp (P.dataPlaced S).dot (maxAlign P.bssSection)) 4

theorem bssStart_eq : (P.heapPlaced S).symbols .bssStart = some (P.bssStart S) := by
  rw [heapPlaced_symbols (by simp [heapSection])]
  exact run_symbol _ [.align 4] (by simp)

theorem dataStart_aligned : 16 ∣ P.dataStart :=
  alignUp_keeps (j := 4) (maxAlign_power P.dataSection) (by decide)

theorem dataEnd_aligned : 16 ∣ (P.dataPlaced S).dot := by
  have last : (P.dataPlaced S).dot = alignUp
      (run { P.flash S with dot := P.dataStart } (P.dataSection.take 16)).dot 16 := rfl
  rw [last]
  exact dvd_alignUp _ 16

theorem bssEnd_aligned : 4 ∣ (P.bssPlaced S).dot := dvd_alignUp _ 4

/-- Where the sections lie, in the order of their addresses. -/
structure Ordered (P : Program) (S : Script) : Prop where
  flash : (P.flash S).dot ≤ 0x40000
  origin : ramOrigin ≤ P.dataStart
  data : P.dataStart ≤ (P.dataPlaced S).dot
  gap : (P.dataPlaced S).dot ≤ P.bssStart S
  bss : P.bssStart S ≤ (P.bssPlaced S).dot
  ram : (P.bssPlaced S).dot ≤ ramOrigin + ramLength

theorem maxAlign_pos (body : List (Statement Symbol)) : 0 < maxAlign body := by
  obtain ⟨k, power⟩ := maxAlign_power body
  rw [power]
  exact Nat.two_pow_pos k

theorem ordered_of_link (linked : P.link S = some symbols) :
    P.Ordered S ∧ ∀ name ∉ [Symbol.stackTop, .stackLimit, .ramEnd],
      symbols name = (P.heapPlaced S).symbols name := by
  rw [link] at linked
  split at linked
  · rename_i fits
    obtain ⟨flash, ram, -⟩ := fits
    cases linked
    refine ⟨⟨?_, le_alignUp _ (maxAlign_pos _), ?_, ?_, ?_, ram⟩, fun name others => ?_⟩
    · rwa [flash_end] at flash
    · exact le_outputSection { P.flash S with dot := ramOrigin } P.dataSection_valid
    · exact Nat.le_trans (le_alignUp _ (maxAlign_pos P.bssSection)) (le_alignUp _ (by decide))
    · have rest : ∀ x ∈ P.bssSection.tail, x.Valid := fun x hx =>
        P.bssSection_valid x (List.mem_of_mem_tail hx)
      exact le_run { P.dataPlaced S with dot := P.bssStart S } rest
    · simp only [List.mem_cons, List.not_mem_nil, or_false, not_or] at others
      obtain ⟨top, limit, ramEnd⟩ := others
      exact ((Function.update_of_ne ramEnd _ _).trans (Function.update_of_ne limit _ _)).trans
        (Function.update_of_ne top _ _)
  · cases linked

theorem dataPlaced_still :
    (P.dataPlaced S).dot = P.dataStart ↔ ∀ x ∈ P.initialised, x.size = 0 := by
  have contents : P.dataSection.flatMap Statement.sections = P.initialised := by
    simp [dataSection, initialised, Statement.sections]
  rw [← contents]
  apply outputSection_still
  have start := P.dataStart_aligned
  intro n aligned
  have four : (4 : Nat) ∣ P.dataStart := Nat.dvd_trans (by decide) start
  simp only [dataSection, List.mem_cons, Statement.align.injEq, reduceCtorEq, false_or,
    List.not_mem_nil, or_false] at aligned
  obtain rfl | rfl | rfl | rfl := aligned
  · exact ⟨by decide, four⟩
  · exact ⟨by decide, four⟩
  · exact ⟨by decide, four⟩
  · exact ⟨by decide, start⟩

/-- The symbols that `Reset_Handler` uses are those of the layout. -/
structure Lays (symbols : SymbolTable) (L : Layout) : Prop where
  etext : symbols .etext = some L.etext.toNat
  dataStart : symbols .dataStart = some L.data.start.toNat
  dataEnd : symbols .dataEnd = some L.data.stop.toNat
  bssStart : symbols .bssStart = some L.bss.start.toNat
  bssEnd : symbols .bssEnd = some L.bss.stop.toNat

/-- A region between two addresses of words. -/
theorem exists_region {start stop : Nat} (low : start ≤ stop) (high : stop < 2 ^ 32)
    (words : 4 ∣ start) (words' : 4 ∣ stop) :
    ∃ r : Region, r.start.toNat = start ∧ r.stop.toNat = stop := by
  have first : (UInt32.ofNat start).toNat = start :=
    UInt32.toNat_ofNat_of_lt' (Nat.lt_of_le_of_lt low high)
  have last : (UInt32.ofNat stop).toNat = stop := UInt32.toNat_ofNat_of_lt' high
  refine ⟨⟨UInt32.ofNat start, UInt32.ofNat stop, ?_, ?_, ?_⟩, first, last⟩
  · rw [WordAligned, first]
    exact Nat.mod_eq_zero_of_dvd words
  · rw [WordAligned, last]
    exact Nat.mod_eq_zero_of_dvd words'
  · rw [UInt32.le_iff_toNat_le, first, last]
    exact low

/-- The load image is below the RAM. -/
theorem image_below (order : P.Ordered S) {data : Region} (start : data.start.toNat = P.dataStart)
    (stop : data.stop.toNat = (P.dataPlaced S).dot) {a : UInt32} (inData : data.Contains a) :
    (UInt32.ofNat (P.flash S).dot + (a - data.start)).toNat < ramOrigin := by
  have origin : ramOrigin = 0x20000000 := rfl
  have length : ramLength = 0x8000 := rfl
  obtain ⟨flash, low, -, gap, bss, ram⟩ := order
  have first := UInt32.le_iff_toNat_le.mp inData.1
  have last := UInt32.lt_iff_toNat_lt.mp inData.2
  rw [UInt32.toNat_add, UInt32.toNat_sub_of_le _ _ inData.1,
    UInt32.toNat_ofNat_of_lt' (Nat.lt_of_le_of_lt flash (by decide))]
  omega

/-- A program that links, with its load image at a word, gives `Reset_Handler` a layout that
it admits. -/
theorem exists_layout (linked : P.link S = some symbols) (word : (P.flash S).dot % 4 = 0) :
    ∃ L, Lays symbols L ∧ (L.Clears ↔ ∃ x ∈ P.initialised, 0 < x.size) := by
  obtain ⟨order, same⟩ := ordered_of_link linked
  have origin : ramOrigin = 0x20000000 := rfl
  have length : ramLength = 0x8000 := rfl
  have flash := order.flash
  have low := order.origin
  have room := order.data
  have gap := order.gap
  have ram := order.ram
  have bss := order.bss
  have four : 4 ∣ 16 := by decide
  obtain ⟨data, dataStart, dataEnd⟩ := exists_region room (by omega)
    (Nat.dvd_trans four P.dataStart_aligned) (Nat.dvd_trans four dataEnd_aligned)
  obtain ⟨zero, bssStart, bssEnd⟩ := exists_region bss (by omega) (dvd_alignUp _ 4) bssEnd_aligned
  have etext : (UInt32.ofNat (P.flash S).dot).toNat = (P.flash S).dot :=
    UInt32.toNat_ofNat_of_lt' (Nat.lt_of_le_of_lt flash (by decide))
  refine ⟨⟨UInt32.ofNat (P.flash S).dot, data, zero, ?_, ?_, Or.inr ?_⟩, ⟨?_, ?_, ?_, ?_, ?_⟩, ?_⟩
  · rwa [WordAligned, etext]
  · intro a inData inBss
    have before := UInt32.lt_iff_toNat_lt.mp inData.2
    have after := UInt32.le_iff_toNat_le.mp inBss.1
    omega
  · intro a inData
    have image := image_below order dataStart dataEnd inData
    refine ⟨fun inside => ?_, fun inside => ?_⟩
    · have above := UInt32.le_iff_toNat_le.mp inside.1
      omega
    · have above := UInt32.le_iff_toNat_le.mp inside.1
      omega
  · rw [same _ (by decide), etext_eq, etext]
  · rw [same _ (by decide), dataStart_eq, dataStart]
  · rw [same _ (by decide), dataEnd_eq, dataEnd]
  · rw [same _ (by decide), bssStart_eq, bssStart]
  · rw [same _ (by decide), bssEnd_eq, bssEnd]
  · have moved : UInt32.ofNat (P.flash S).dot ≠ data.start := by
      intro same
      rw [same] at etext
      omega
    have filled : data.start ≠ data.stop ↔ ¬ (P.dataPlaced S).dot = P.dataStart := by
      rw [ne_eq, ← UInt32.toNat_inj, dataStart, dataEnd, eq_comm]
    have some : (¬ ∀ x ∈ P.initialised, x.size = 0) ↔ ∃ x ∈ P.initialised, 0 < x.size := by
      simp [Nat.pos_iff_ne_zero]
    rw [Layout.Clears, and_iff_left moved, filled, dataPlaced_still, some]

/-- A program that links starts with the memory image of C exactly when it has some
initialised data, or when the memory for its other variables happens to be zero. -/
theorem startup_image (linked : P.link S = some symbols)
    (word : (symbols .etext).all (fun e => e % 4 == 0) = true) (memory : Memory) :
    ∃ L after, Lays symbols L ∧ L.Leaves memory after ∧
      (L.Initialised memory after ↔ (∃ x ∈ P.initialised, 0 < x.size) ∨
        ∀ a, WordAligned a → L.bss.Contains a → memory a = 0) := by
  have atWord : (P.flash S).dot % 4 = 0 := by
    rw [(ordered_of_link linked).2 _ (by decide), etext_eq] at word
    exact eq_of_beq word
  obtain ⟨L, lays, clears⟩ := exists_layout linked atWord
  rw [← clears]
  by_cases loops : L.Clears
  · obtain ⟨after, leaves, image⟩ := Layout.leaves_initialised loops memory
    exact ⟨L, after, lays, leaves, fun _ => Or.inl loops, fun _ => image⟩
  · refine ⟨L, memory, lays, Layout.leaves_unchanged loops memory, ?_⟩
    rw [Layout.initialised_unchanged_iff loops, or_iff_right loops]

/-- A hundred bytes of code and eight of uninitialised variables. -/
def noData : Program where
  sketchBoot := []
  isrVector := [⟨180, 4, 2, rfl⟩]
  text := [⟨100, 4, 2, rfl⟩]
  init := []
  fini := []
  ctors := []
  dtors := []
  rodata := [⟨7, 1, 0, rfl⟩]
  ehFrame := []
  ramfunc := [⟨76, 4, 2, rfl⟩]
  armExtab := []
  armExidx := [⟨8, 4, 2, rfl⟩]
  vtable := []
  data := []
  preinitArray := []
  initArray := []
  finiArray := []
  jcr := []
  bss := [⟨8, 4, 2, rfl⟩]
  common := []
  heap := []
  stack := []

theorem startup_image_noData :
    ∃ linked : (noData.link .withBootloader).isSome, ∃ L after,
      Lays ((noData.link .withBootloader).get linked) L ∧
      L.Leaves (fun _ => 0xA5A5A5A5) after ∧
      (L.Initialised (fun _ => 0xA5A5A5A5) after ↔ (∃ x ∈ noData.initialised, 0 < x.size) ∨
        ∀ a, WordAligned a → L.bss.Contains a → (0xA5A5A5A5 : UInt32) = 0) :=
  ⟨by decide, startup_image (Option.some_get _).symm (by decide) _⟩

end Program
end SamdCore
