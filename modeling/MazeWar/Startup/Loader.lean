import MazeWar.Startup.Template

/-!
# Loading a template file

`main` reads the file twice with `getline`: once for the number of lines and the length of the
last, once into buffers of that length. The array of lines has no room for the NULL at its end.
Overflow of the `int` counters is left out.
-/

namespace MazeWar

def newline : UInt8 := 10

/-- A stream as `getline` takes it apart: the lines, each with its newline if it has one. -/
def chunks : List UInt8 → List (List UInt8)
  | [] => []
  | c :: rest =>
    if c = newline then [newline] :: chunks rest
    else match chunks rest with
      | [] => [[c]]
      | chunk :: more => (c :: chunk) :: more

/-- An allocated buffer and what has been stored from its front. -/
structure Buffer where
  size : Nat
  text : List UInt8

/-- A store to an array or buffer of the given size, or a read through a pointer that may be stored to. -/
structure Store where
  index : Nat
  size : Nat
  deriving DecidableEq

def Store.Inside (store : Store) : Prop := store.index < store.size

/-- How `getline` enlarges a buffer: the new capacity for the one told and the one needed. -/
structure Growth where
  grow : Nat → Nat → Nat
  enough : ∀ told need, need ≤ grow told need

/-- What `getline` returns and leaves behind. -/
structure GotLine where
  read : Nat
  line : Buffer
  len : Nat
  moved : Bool
  stores : List Store

/-- `getline(&line, &len, in)` when the next line of the stream is `chunk`. It allocates when it
has no buffer or is told a capacity that is too small, and trusts the capacity otherwise. -/
def getline (growth : Growth) (line : Option Buffer) (len : Nat) (chunk : List UInt8) : GotLine :=
  let need := chunk.length + 1
  let kept := line.filter fun _ => need ≤ len
  let size := (kept.map Buffer.size).getD (growth.grow len need)
  { read := chunk.length
    line := ⟨size, chunk ++ [0]⟩
    len := if kept.isSome then len else growth.grow len need
    moved := kept.isNone
    stores := (List.range need).map fun i => ⟨i, size⟩ }

structure Counted where
  row : Nat
  col : Nat
  len : Nat
  stores : List Store

/-- The first `while` loop. -/
def countLines (growth : Growth) : List (List UInt8) → Option Buffer → Counted → Counted
  | [], _, counted => counted
  | chunk :: rest, line, counted =>
    let got := getline growth line counted.len chunk
    countLines growth rest (some got.line)
      { row := counted.row + 1, col := got.read, len := got.len, stores := counted.stores ++ got.stores }

structure Loading where
  i : Nat
  len : Nat
  template : List (Option Buffer)
  stores : List Store

/-- The second `while` loop, up to the call of `getline` that finds the end of the file. -/
def fillLines (growth : Growth) : List (List UInt8) → Loading → Loading
  | [], loading => loading
  | chunk :: rest, loading =>
    let got := getline growth (loading.template.getD loading.i none) loading.len chunk
    let pointer := if got.moved then [⟨loading.i, loading.template.length⟩] else []
    fillLines growth rest
      { i := loading.i + 1
        len := got.len
        template := loading.template.set loading.i (some ⟨got.line.size, got.line.text.set (got.read - 1) 0⟩)
        stores := loading.stores ++ pointer ++ got.stores ++ [⟨got.read - 1, got.line.size⟩] }

/-- The array of lines, allocated after the first loop. -/
def allocateLines (growth : Growth) (file : List UInt8) : Loading :=
  let counted := countLines growth (chunks file) none ⟨0, 0, 0, []⟩
  { i := 0
    len := counted.len
    template := List.replicate counted.row (some ⟨counted.col + 1, []⟩)
    stores := counted.stores ++ (List.range counted.row).map fun i => ⟨i, counted.row⟩ }

/-- `main` up to that call. -/
def loadLines (growth : Growth) (file : List UInt8) : Loading :=
  fillLines growth (chunks file) (allocateLines growth file)

def load (growth : Growth) (file : List UInt8) : Loading :=
  let loading := loadLines growth file
  -- The last call of `getline` is given the address of an entry, too, and reads it before the NULL is stored there.
  let lineptr : Store := ⟨loading.i, loading.template.length⟩
  { loading with
    template := loading.template.set loading.i none
    stores := loading.stores ++ [lineptr, ⟨loading.i, loading.template.length⟩] }

/-! ### Template files -/

/-- The content of a template file: its lines, and whether the last one ends with a newline. -/
structure TemplateFile extends Template where
  unbroken : ∀ line ∈ lines, newline ∉ line
  closed : Bool

namespace TemplateFile

/-- The lines as they stand in the file. -/
def records (closed : Bool) : List (List UInt8) → List (List UInt8)
  | [] => []
  | [line] => [if closed then line ++ [newline] else line]
  | line :: next :: rest => (line ++ [newline]) :: records closed (next :: rest)

def content (file : TemplateFile) : List UInt8 := (records file.closed file.lines).flatten

end TemplateFile

/-- The string in a buffer. -/
def Buffer.chars (buffer : Buffer) : List UInt8 := buffer.text.takeWhile (· ≠ 0)

/-- The entries of the array are the lines of the file. -/
def HoldsLines (template : List (Option Buffer)) (lines : List (List UInt8)) : Prop :=
  ∀ (i : Nat) line, lines[i]? = some line → ∃ buffer : Buffer, template[i]? = some (some buffer) ∧ buffer.chars = line

/-- The array holds the lines and then NULL, and every store was to an allocated place. -/
structure Preserved (growth : Growth) (file : TemplateFile) : Prop where
  lines : HoldsLines (load growth file.content).template file.lines
  ended : (load growth file.content).template[file.lines.length]? = some none
  inside : ∀ store ∈ (load growth file.content).stores, store.Inside

/-! ### The terminator -/

section
variable (growth : Growth)

theorem countLines_row (rest : List (List UInt8)) (line : Option Buffer) (counted : Counted) :
    (countLines growth rest line counted).row = counted.row + rest.length := by
  induction rest generalizing line counted with
  | nil => rfl
  | cons chunk rest ih =>
    rw [countLines, ih, List.length_cons]
    show counted.row + 1 + rest.length = _
    omega

theorem fillLines_counts (rest : List (List UInt8)) (loading : Loading) :
    (fillLines growth rest loading).i = loading.i + rest.length ∧
      (fillLines growth rest loading).template.length = loading.template.length := by
  induction rest generalizing loading with
  | nil => exact ⟨rfl, rfl⟩
  | cons chunk rest ih =>
    obtain ⟨next, length⟩ := ih _
    rw [fillLines]
    refine ⟨next.trans ?_, length.trans (List.length_set ..)⟩
    simp only [List.length_cons]
    omega

theorem allocateLines_length (file : List UInt8) :
    (allocateLines growth file).template.length = (chunks file).length := by
  unfold allocateLines
  rw [List.length_replicate, countLines_row, Nat.zero_add]

theorem loadLines_counts (file : List UInt8) :
    (loadLines growth file).i = (chunks file).length ∧
      (loadLines growth file).template.length = (chunks file).length := by
  obtain ⟨next, length⟩ := fillLines_counts growth (chunks file) (allocateLines growth file)
  exact ⟨next.trans (Nat.zero_add _), length.trans (allocateLines_length growth file)⟩

/-- Whatever the file, the last `getline` gets the place right behind the array, and the NULL is stored there. -/
theorem load_terminator (file : List UInt8) :
    ⟨(chunks file).length, (chunks file).length⟩ ∈ (load growth file).stores := by
  obtain ⟨next, length⟩ := loadLines_counts growth file
  unfold load
  dsimp only
  rw [next, length]
  exact List.mem_append_right _ (List.mem_cons_of_mem _ List.mem_cons_self)

theorem load_never_preserves (file : TemplateFile) : ¬ Preserved growth file :=
  fun preserved => absurd (preserved.inside _ (load_terminator growth file.content)) (Nat.lt_irrefl _)

end

/-- Buffers grow to twice their size, or to what is needed. -/
def doubling : Growth where
  grow told need := max (2 * told) need
  enough _ _ := Nat.le_max_right _ _

/-- A single wall and a newline. -/
def oneWall : TemplateFile where
  lines := [[42]]
  width := 1
  tall := by decide
  wide := Nat.one_pos
  rectangular := by decide
  text := by decide
  unbroken := by decide
  closed := true

/-- The array has one entry, and the NULL goes to the second. -/
theorem load_oneWall_overruns : ⟨1, 1⟩ ∈ (load doubling oneWall.content).stores ∧ ¬ Preserved doubling oneWall := by
  have behind : ⟨1, 1⟩ ∈ (load doubling oneWall.content).stores := by decide
  exact ⟨behind, fun preserved => absurd (preserved.inside _ behind) (Nat.lt_irrefl 1)⟩

/-! ### What the buffers hold -/

section
variable {growth : Growth} {chunk line : List UInt8}

/-- A buffer in which the last character of what was read has been overwritten. -/
def terminated (chunk : List UInt8) : List UInt8 := (chunk ++ [0]).set (chunk.length - 1) 0

theorem terminated_chars {size : Nat} (start : List UInt8) (last : UInt8) (text : 0 ∉ start) :
    (Buffer.mk size (terminated (start ++ [last]))).chars = start := by
  have shape : terminated (start ++ [last]) = start ++ [0, 0] := by
    simp [terminated]
  unfold Buffer.chars
  rw [shape, List.takeWhile_append_of_pos]
  · simp
  · intro c member
    exact decide_eq_true (ne_of_mem_of_not_mem member text)

theorem fillLines_holds (rest : List (List UInt8)) (loading : Loading)
    (room : loading.i + rest.length ≤ loading.template.length) :
    (∀ k chunk, rest[k]? = some chunk → ∃ size,
      (fillLines growth rest loading).template[loading.i + k]? = some (some ⟨size, terminated chunk⟩)) ∧
    ∀ k < loading.i, (fillLines growth rest loading).template[k]? = loading.template[k]? := by
  induction rest generalizing loading with
  | nil => exact ⟨by simp, fun _ _ => rfl⟩
  | cons chunk rest ih =>
    rw [List.length_cons] at room
    rw [fillLines]
    let got := getline growth (loading.template.getD loading.i none) loading.len chunk
    let filled := loading.template.set loading.i (some ⟨got.line.size, terminated chunk⟩)
    have length : filled.length = loading.template.length := List.length_set ..
    obtain ⟨later, before⟩ := ih ⟨loading.i + 1, got.len, filled, _⟩ (by rw [length]; simp only; omega)
    refine ⟨fun k next present => ?_, fun k early => ?_⟩
    · cases k with
      | zero =>
        cases present
        have here := before loading.i (Nat.lt_succ_self _)
        exact ⟨_, here.trans (List.getElem?_set_self (by omega))⟩
      | succ k =>
        obtain ⟨size, there⟩ := later k next present
        refine ⟨size, ?_⟩
        rw [← there]
        congr 1
        simp only
        omega
    · have kept := before k (Nat.lt_succ_of_lt early)
      exact kept.trans (List.getElem?_set_ne (by omega))

end

/-! ### The lines of a template file -/

section
variable {line rest : List UInt8} {lines : List (List UInt8)}

theorem chunks_line (unbroken : newline ∉ line) :
    chunks (line ++ newline :: rest) = (line ++ [newline]) :: chunks rest := by
  induction line with
  | nil => exact if_pos rfl
  | cons c line ih =>
    obtain ⟨other, unbroken⟩ := not_or.mp (List.mem_cons.not.mp unbroken)
    rw [List.cons_append, chunks, if_neg (Ne.symm other), ih unbroken]
    rfl

theorem chunks_last (unbroken : newline ∉ line) (long : line ≠ []) : chunks line = [line] := by
  induction line with
  | nil => exact absurd rfl long
  | cons c line ih =>
    obtain ⟨other, unbroken⟩ := not_or.mp (List.mem_cons.not.mp unbroken)
    rw [chunks, if_neg (Ne.symm other)]
    by_cases last : line = []
    · subst last
      rfl
    · rw [ih unbroken last]

namespace TemplateFile

theorem chunks_records (closed : Bool) (unbroken : ∀ line ∈ lines, newline ∉ line) (long : ∀ line ∈ lines, line ≠ []) :
    chunks (records closed lines).flatten = records closed lines := by
  induction lines with
  | nil => rfl
  | cons line rest ih =>
    obtain ⟨here, unbroken⟩ := List.forall_mem_cons.mp unbroken
    obtain ⟨some, long⟩ := List.forall_mem_cons.mp long
    cases rest with
    | nil =>
      cases closed with
      | false =>
        show chunks (line ++ []) = [line]
        rw [List.append_nil, chunks_last here some]
      | true =>
        show chunks (line ++ [newline] ++ []) = [line ++ [newline]]
        rw [List.append_nil, chunks_line here]
        rfl
    | cons next rest =>
      rw [records, List.flatten_cons, List.append_assoc, List.singleton_append, chunks_line here, ih unbroken long]

theorem records_length (closed : Bool) (lines : List (List UInt8)) : (records closed lines).length = lines.length := by
  induction lines with
  | nil => rfl
  | cons line rest ih =>
    cases rest with
    | nil => rfl
    | cons next rest => exact congrArg (· + 1) ih

/-- Each record is its line and a newline, except that the last may lack the newline. -/
theorem records_getElem? (closed : Bool) (lines : List (List UInt8)) (k : Nat) :
    (records closed lines)[k]? = lines[k]?.map fun line =>
      if closed ∨ k + 1 < lines.length then line ++ [newline] else line := by
  induction lines generalizing k with
  | nil => rfl
  | cons line rest ih =>
    cases rest with
    | nil => cases k <;> simp [records]
    | cons next rest =>
      cases k with
      | zero => simp [records]
      | succ k =>
        rw [records, List.getElem?_cons_succ, ih, List.getElem?_cons_succ]
        simp

theorem chunks_content (file : TemplateFile) : chunks file.content = records file.closed file.lines := by
  refine chunks_records _ file.unbroken fun line member none => ?_
  have width := file.rectangular line member
  have wide := file.wide
  rw [none, List.length_nil] at width
  omega

end TemplateFile

/-! ### What the loader gets right -/

theorem loadLines_text (growth : Growth) (file : List UInt8) (k : Nat) (chunk : List UInt8)
    (present : (chunks file)[k]? = some chunk) :
    ∃ size, (loadLines growth file).template[k]? = some (some ⟨size, terminated chunk⟩) := by
  have room : (allocateLines growth file).i + (chunks file).length ≤ (allocateLines growth file).template.length :=
    (Nat.zero_add _).trans_le (allocateLines_length growth file).ge
  obtain ⟨size, shown⟩ := (fillLines_holds (chunks file) (allocateLines growth file) room).1 k chunk present
  have first : (allocateLines growth file).i + k = k := Nat.zero_add k
  rw [first] at shown
  exact ⟨size, shown⟩

/-- The array holds the lines exactly when the file ends with a newline: the last character
read is always overwritten. -/
theorem loadLines_holds_iff (growth : Growth) (file : TemplateFile) :
    HoldsLines (loadLines growth file.content).template file.lines ↔ file.closed = true := by
  have shown : ∀ (k : Nat) line, file.lines[k]? = some line → ∃ size,
      (loadLines growth file.content).template[k]? = some (some ⟨size, terminated
        (if file.closed ∨ k + 1 < file.lines.length then line ++ [newline] else line)⟩) := by
    intro k line present
    refine loadLines_text growth file.content k _ ?_
    rw [file.chunks_content, TemplateFile.records_getElem?, present]
    rfl
  constructor
  · intro holds
    by_contra unclosed
    have last : file.lines.length - 1 < file.lines.length := Nat.sub_one_lt_of_lt file.tall
    have present := List.getElem?_eq_getElem last
    have member := List.getElem_mem last
    generalize file.lines[file.lines.length - 1] = line at present member
    obtain ⟨size, text⟩ := shown _ line present
    obtain ⟨buffer, same, chars⟩ := holds _ line present
    rw [if_neg (by simp only [not_or]; exact ⟨unclosed, by omega⟩)] at text
    obtain rfl : buffer = ⟨size, terminated line⟩ := by simpa using same.symm.trans text
    have long : line ≠ [] := by
      intro none
      have width := file.rectangular line member
      have wide := file.wide
      rw [none, List.length_nil] at width
      omega
    obtain ⟨start, c, rfl⟩ : ∃ start c, line = start ++ [c] := ⟨_, _, (List.dropLast_append_getLast long).symm⟩
    rw [terminated_chars start c fun zero => file.text _ member (List.mem_append_left _ zero)] at chars
    have shorter := congrArg List.length chars
    rw [List.length_append] at shorter
    simp at shorter
  · intro closed k line present
    obtain ⟨size, text⟩ := shown k line present
    rw [if_pos (Or.inl closed)] at text
    exact ⟨_, text, terminated_chars line newline (file.text line (List.mem_of_getElem? present))⟩

/-! ### The stores before the terminator -/

section Stores
variable {growth : Growth} {buffer : Buffer} {rest : List (List UInt8)} {counted : Counted} {len need : Nat}
  {line : Option Buffer} {chunk : List UInt8}

theorem getline_kept (enough : chunk.length + 1 ≤ len) :
    getline growth (some buffer) len chunk =
      { read := chunk.length, line := ⟨buffer.size, chunk ++ [0]⟩, len, moved := false,
        stores := (List.range (chunk.length + 1)).map fun i => ⟨i, buffer.size⟩ } := by
  simp [getline, Option.filter, enough]

theorem range_inside {size : Nat} (enough : need ≤ size) :
    ∀ store ∈ (List.range need).map fun i => Store.mk i size, store.Inside := by
  intro store member
  obtain ⟨i, bound, rfl⟩ := List.mem_map.mp member
  exact (List.mem_range.mp bound).trans_le enough

theorem getline_moved (short : line = none ∨ len < chunk.length + 1) :
    getline growth line len chunk =
      { read := chunk.length, line := ⟨growth.grow len (chunk.length + 1), chunk ++ [0]⟩,
        len := growth.grow len (chunk.length + 1), moved := true,
        stores := (List.range (chunk.length + 1)).map fun i => ⟨i, growth.grow len (chunk.length + 1)⟩ } := by
  have dropped : (line.filter fun _ => decide (chunk.length + 1 ≤ len)) = none := by
    rcases short with none | small
    · rw [none, Option.filter_none]
    · cases line with
      | none => rfl
      | some buffer =>
        simp only [Option.filter, decide_eq_true_eq]
        exact if_neg (Nat.not_le.mpr small)
  unfold getline
  dsimp only
  rw [dropped]
  rfl

/-- A buffer whose size is the capacity told is large enough afterwards, and no store leaves it. -/
structure Fits (got : GotLine) (len : Nat) (chunk : List UInt8) : Prop where
  size : got.line.size = got.len
  enough : chunk.length + 1 ≤ got.len
  larger : len ≤ got.len
  inside : ∀ store ∈ got.stores, store.Inside

theorem getline_fits (growth : Growth) (chunk : List UInt8)
    (fits : ∀ buffer, line = some buffer → buffer.size = len) (fresh : line = none → len = 0) :
    Fits (getline growth line len chunk) len chunk := by
  have enough := growth.enough len (chunk.length + 1)
  by_cases kept : ∃ buffer, line = some buffer ∧ chunk.length + 1 ≤ len
  · obtain ⟨buffer, rfl, large⟩ := kept
    rw [getline_kept large]
    exact ⟨fits buffer rfl, large, Nat.le_refl _, range_inside (fits buffer rfl ▸ large)⟩
  · have short : line = none ∨ len < chunk.length + 1 := by
      cases line with
      | none => exact Or.inl rfl
      | some buffer => exact Or.inr (not_le.mp fun large => kept ⟨buffer, rfl, large⟩)
    rw [getline_moved short]
    refine ⟨rfl, enough, ?_, range_inside enough⟩
    rcases short with none | small
    · rw [fresh none]
      exact Nat.zero_le _
    · exact small.le.trans enough

theorem countLines_fits (growth : Growth) (rest : List (List UInt8)) (line : Option Buffer) (counted : Counted)
    (fits : ∀ buffer, line = some buffer → buffer.size = counted.len)
    (fresh : line = none → counted.len = 0) (inside : ∀ store ∈ counted.stores, store.Inside) :
    (∀ store ∈ (countLines growth rest line counted).stores, store.Inside) ∧
      counted.len ≤ (countLines growth rest line counted).len ∧
      ∀ chunk ∈ rest, chunk.length + 1 ≤ (countLines growth rest line counted).len := by
  induction rest generalizing line counted with
  | nil => exact ⟨inside, Nat.le_refl _, by simp⟩
  | cons chunk rest ih =>
    have got := getline_fits growth chunk fits fresh
    rw [countLines]
    obtain ⟨stores, larger, enough⟩ := ih (some (getline growth line counted.len chunk).line)
      ⟨counted.row + 1, chunk.length, _, _⟩ (fun buffer same => by cases same; exact got.size) (by simp)
      (List.forall_mem_append.mpr ⟨inside, got.inside⟩)
    exact ⟨stores, got.larger.trans larger, List.forall_mem_cons.mpr ⟨got.enough.trans larger, enough⟩⟩

theorem countLines_col (growth : Growth) (line : Option Buffer) (counted : Counted) {length : Nat}
    (some : rest ≠ []) (same : ∀ chunk ∈ rest, chunk.length = length) :
    (countLines growth rest line counted).col = length := by
  induction rest generalizing line counted with
  | nil => exact absurd rfl some
  | cons chunk rest ih =>
    obtain ⟨here, same⟩ := List.forall_mem_cons.mp same
    rw [countLines]
    cases rest with
    | nil => exact here
    | cons next rest => exact ih _ _ (by simp) same

theorem fillLines_inside {length : Nat} {loading : Loading} (long : 0 < length)
    (same : ∀ chunk ∈ rest, chunk.length = length) (told : length + 1 ≤ loading.len)
    (room : loading.i + rest.length ≤ loading.template.length)
    (buffers : ∀ k, loading.i ≤ k → k < loading.template.length →
      ∃ text, loading.template[k]? = some (some ⟨length + 1, text⟩))
    (inside : ∀ store ∈ loading.stores, store.Inside) :
    ∀ store ∈ (fillLines growth rest loading).stores, store.Inside := by
  induction rest generalizing loading with
  | nil => exact inside
  | cons chunk rest ih =>
    obtain ⟨rfl, same⟩ := List.forall_mem_cons.mp same
    rw [List.length_cons] at room
    obtain ⟨text, present⟩ := buffers loading.i (Nat.le_refl _) (by omega)
    have slot : loading.template.getD loading.i none = some ⟨chunk.length + 1, text⟩ := by
      rw [List.getD_eq_getElem?_getD, present, Option.getD_some]
    rw [fillLines, slot, getline_kept told]
    refine ih same told (by rw [List.length_set]; simp only; omega) (fun k later bound => ?_) ?_
    · rw [List.length_set] at bound
      obtain ⟨text, present⟩ := buffers k (Nat.le_of_succ_le later) bound
      refine ⟨text, ?_⟩
      rw [List.getElem?_set_ne (Nat.ne_of_lt later)]
      exact present
    · simp only [Bool.false_eq_true, if_false, List.append_nil]
      refine List.forall_mem_append.mpr ⟨List.forall_mem_append.mpr ⟨inside, range_inside (Nat.le_refl _)⟩, ?_⟩
      intro store member
      obtain rfl := List.mem_singleton.mp member
      exact Nat.sub_lt_succ _ _

theorem TemplateFile.chunk_length (file : TemplateFile) (closed : file.closed = true) :
    ∀ chunk ∈ chunks file.content, chunk.length = file.width + 1 := by
  intro chunk member
  obtain ⟨k, present⟩ := List.mem_iff_getElem?.mp member
  rw [file.chunks_content, TemplateFile.records_getElem?] at present
  obtain ⟨line, here, rfl⟩ := Option.map_eq_some_iff.mp present
  rw [if_pos (Or.inl closed), List.length_append, file.rectangular line (List.mem_of_getElem? here)]
  rfl

/-- For a file that ends with a newline, every store before the end of the file is found is inside. -/
theorem loadLines_inside (growth : Growth) (file : TemplateFile) (closed : file.closed = true) :
    ∀ store ∈ (loadLines growth file.content).stores, store.Inside := by
  have lengths := file.chunk_length closed
  have count : (chunks file.content).length = file.lines.length := by
    rw [file.chunks_content, TemplateFile.records_length]
  have some : chunks file.content ≠ [] := by
    intro none
    have tall := file.tall
    rw [none, List.length_nil] at count
    omega
  obtain ⟨stores, _, told⟩ := countLines_fits growth (chunks file.content) none ⟨0, 0, 0, []⟩ (by simp)
    (fun _ => rfl) (by simp)
  obtain ⟨chunk, member⟩ := List.exists_mem_of_ne_nil _ some
  have col := countLines_col growth none ⟨0, 0, 0, []⟩ some lengths
  have enough := told chunk member
  rw [lengths chunk member] at enough
  refine fillLines_inside (Nat.succ_pos _) lengths enough ?_ ?_ ?_
  · exact (Nat.zero_add _).trans_le (allocateLines_length growth file.content).ge
  · intro k _ bound
    unfold allocateLines at bound ⊢
    rw [List.length_replicate] at bound
    refine ⟨[], ?_⟩
    rw [List.getElem?_replicate_of_lt bound, col]
  · exact List.forall_mem_append.mpr ⟨stores, range_inside (Nat.le_refl _)⟩

end Stores

end
end MazeWar
