import VectorDebugger.Debugger.MapRoundTrip

/-!
# From a MAP file to the symbols of the debugger

When a program without a database is loaded, the addresses of its MAP file become objects, the first
one of an address wins, and each object is mirrored by a symbol where the user has none. So the file
says which symbol the debugger shows at every address.
-/

namespace VectorDebugger

namespace MapLoader

/-- The symbol that the debugger shows for an entry. -/
def MapEntry.debugSymbol (entry : MapEntry) : DebugSymbol where
  address := entry.symbol.address
  name := entry.name
  comment := []
  type := if entry.visibility = .isPublic then .function else .label
  sourceFile := normalizeRdbText entry.source.read.1
  sourceLine := max entry.source.read.2 0
  fromMap := true

/-- A line number is one of 32 bits. -/
theorem atoi_lt (digits : Text) : atoi digits < 2 ^ 31 := by
  unfold atoi
  dsimp only
  split
  · have bound := @Int.bmod_lt
      ((digits.foldl (fun value c => 10 * value + (c.toNat - 0x30)) 0 : Nat) : Int) (2 ^ 32)
      (by decide)
    omega
  · decide

theorem read_lt (source : SourceRef) : source.read.2 < 2 ^ 31 := by
  cases source with
  | absent => decide
  | label file line => exact atoi_lt line
  | function file name n m line => exact atoi_lt line

/-- A line number passes through the wider integer of the database. -/
theorem line_kept {line : Int} (positive : 0 < line) (small : line < 2 ^ 31) :
    ((BitVec.ofInt 64 line).setWidth 32).toInt = line := by
  obtain ⟨n, rfl⟩ := Int.eq_ofNat_of_zero_le positive.le
  rw [BitVec.ofInt_natCast, BitVec.setWidth_ofNat_of_le (by decide), BitVec.toInt_ofNat',
    Int.bmod_eq_of_le]
  · omega
  · omega

/-- The mirror of the object of an entry. -/
theorem mirror_symbol (entry : MapEntry) :
    SymbolDatabase.mirror entry.symbol.object.normalizeText = entry.debugSymbol := by
  obtain ⟨file, fileEq⟩ : ∃ file, file = entry.source.read.1 := ⟨_, rfl⟩
  obtain ⟨line, lineEq⟩ : ∃ line, line = entry.source.read.2 := ⟨_, rfl⟩
  have small : line < 2 ^ 31 := by
    rw [lineEq]
    exact read_lt entry.source
  have type : (if entry.symbol.object.normalizeText.type = .function then SymbolType.function
      else .label) = if entry.visibility = .isPublic then .function else .label := by
    show (if (if true && entry.visibility == .isPublic then RdbObjectType.function else .label) =
      .function then SymbolType.function else .label) = _
    cases entry.visibility <;> rfl
  unfold SymbolDatabase.mirror
  rw [type]
  unfold SymbolDatabase.markMirrored MapEntry.debugSymbol RdbObject.property
  unfold RdbObject.normalizeText MapSymbol.object MapEntry.symbol
  dsimp only
  rw [← fileEq, ← lineEq]
  by_cases named : file = []
  · by_cases positive : line > 0
    · rw [if_pos named, if_pos positive, named]
      show DebugSymbol.mk _ _ _ _ _ ((BitVec.ofInt 64 line).setWidth 32).toInt _ = _
      rw [line_kept positive small, max_eq_left positive.le]
      rfl
    · rw [if_pos named, if_neg positive, named, max_eq_right (not_lt.mp positive)]
      rfl
  · by_cases positive : line > 0
    · rw [if_neg named, if_pos positive]
      show DebugSymbol.mk _ _ _ _ _ ((BitVec.ofInt 64 line).setWidth 32).toInt _ = _
      rw [line_kept positive small, max_eq_left positive.le]
      rfl
    · rw [if_neg named, if_neg positive, max_eq_right (not_lt.mp positive)]
      rfl

/-- The import stores the first symbol of each free address. -/
theorem foldl_addObject (symbols : List MapSymbol) (addr : Word) : ∀ rdb : RdbController,
    (symbols.foldl (fun rdb ms => (rdb.addObject ms.object).1) rdb).objects addr =
      (rdb.objects addr).or ((symbols.find? (·.address == addr)).map (·.object.normalizeText)) := by
  induction symbols with
  | nil => exact fun _ => (Option.or_none).symm
  | cons ms symbols inductionHypothesis =>
    intro rdb
    have added : ((rdb.addObject ms.object).1).objects addr =
        (rdb.objects addr).or
          (if ms.address = addr then some ms.object.normalizeText else none) := by
      unfold RdbController.addObject
      cases taken : rdb.objects ms.object.address with
      | some object =>
        rw [if_pos Option.isSome_some]
        split
        case isTrue here =>
          rw [← here, show ms.address = ms.object.address from rfl, taken]
          rfl
        case isFalse => exact (Option.or_none).symm
      | none =>
        rw [if_neg (by decide)]
        show Function.update rdb.objects ms.address (some ms.object.normalizeText) addr = _
        split
        case isTrue here =>
          rw [← here, Function.update_self, show ms.address = ms.object.address from rfl, taken]
          rfl
        case isFalse elsewhere =>
          rw [Function.update_of_ne (Ne.symm elsewhere), Option.or_none]
    rw [List.foldl_cons, inductionHypothesis, added, Option.or_assoc, List.find?_cons]
    congr 1
    by_cases here : ms.address = addr
    · rw [if_pos here, beq_iff_eq.mpr here]
      rfl
    · rw [if_neg here, beq_eq_false_iff_ne.mpr here]
      rfl

theorem find_symbol (entries : List MapEntry) (addr : Word) :
    (entries.map MapEntry.symbol).find? (·.address == addr) =
      (entries.find? (·.symbol.address == addr)).map MapEntry.symbol :=
  List.find?_map

theorem objectCount_empty : RdbController.empty.objectCount = 0 := by
  unfold RdbController.objectCount
  have none : RdbController.empty.listObjects = [] :=
    List.eq_nil_iff_forall_not_mem.mpr fun object mem => by
      have stored := (RdbController.empty.mem_listObjects object).mp mem
      cases stored
  rw [none]
  rfl

end MapLoader

namespace DebugBackend

open MapLoader

variable {δ : Type}

/-- After the load of a program that has a documented MAP file and no database, each address shows
the user's symbol, or else the first entry of the file that defines the address, or else nothing. -/
theorem loadAnnotations_fileText (backend : DebugBackend δ) {files : AnnotationFiles}
    {contents : Text → Option Text} (reads : ∀ path, files.map path =
      (loadMapFile contents path).result)
    {romPath : Text} (new : files.rdb (rdbPathFromRom romPath) = none) {lines : List MapLine}
    (here : contents (mapPathFromRom romPath) = some (fileText lines))
    (documented : ∀ line ∈ lines, ∀ entry ∈ line.1, entry.Documented)
    (some' : lines.filterMap Prod.fst ≠ [])
    (other : ∀ text ∈ [ascii "[keyboard]", ascii "[mapping]", ascii "[keys]"],
      containsCI (fileText lines) text = false) (addr : Word) :
    (backend.loadAnnotations files romPath).symbols.symbols addr =
      (backend.userSymbol addr).or
        (((addresses lines).find? (·.symbol.address == addr)).map MapEntry.debugSymbol) := by
  have filled : fileText lines ≠ [] := by
    cases lines with
    | nil => exact absurd rfl some'
    | cons line lines =>
      refine List.append_ne_nil_of_left_ne_nil ?_ _
      exact List.append_ne_nil_of_right_ne_nil _ (List.cons_ne_nil _ _)
  have loaded : files.map (mapPathFromRom romPath) =
      { success := true, symbols := (addresses lines).map MapEntry.symbol } := by
    rw [reads]
    unfold loadMapFile
    dsimp only
    rw [here]
    dsimp only
    rw [if_neg filled]
    unfold parseMapContent
    dsimp only
    rw [validate_fileText documented some' other, split_fileText documented,
      foldl_addLine documented]
    rfl
  have empty : loadRdb files romPath = .empty := by
    unfold loadRdb
    rw [new]
  have objects : (loadedRdb files romPath).objects addr =
      ((addresses lines).find? (·.symbol.address == addr)).map
        (·.symbol.object.normalizeText) := by
    unfold loadedRdb
    dsimp only
    rw [empty, if_pos objectCount_empty, loaded]
    unfold importMapToRdb
    dsimp only
    rw [Bool.not_true, if_neg Bool.false_ne_true, foldl_addObject, find_symbol, Option.map_map]
    rfl
  have mirrors : (fun entry : MapEntry => entry.debugSymbol) =
      SymbolDatabase.mirror ∘ fun entry => entry.symbol.object.normalizeText :=
    funext fun entry => (mirror_symbol entry).symm
  rw [loadAnnotations_symbols, objects, Option.map_map, ← mirrors]

/-- A game next to which there is a MAP file. -/
theorem loadAnnotations_fileText_game :
    let contents : Text → Option Text := fun _ => some (fileText gameLines)
    let files : AnnotationFiles :=
      { rdb := fun _ => none, map := fun path => (loadMapFile contents path).result }
    let backend : DebugBackend Unit := init () [] fun _ => []
    (backend.loadAnnotations files (ascii "game.rom")).symbols.symbols 0x0a5f =
      (backend.userSymbol 0x0a5f).or
        (((addresses gameLines).find? (·.symbol.address == 0x0a5f)).map MapEntry.debugSymbol) :=
  loadAnnotations_fileText _ (fun _ => rfl) rfl rfl gameLines_documented (List.cons_ne_nil _ _)
    gameLines_other _

end DebugBackend

end VectorDebugger
