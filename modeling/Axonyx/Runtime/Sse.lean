import Axonyx.EventStream
import Mathlib.Algebra.BigOperators.Group.List.Basic
import Mathlib.Algebra.Order.Group.Nat

/-! Server-sent events: what a client makes of the text that the server renders. -/
namespace Axonyx.Runtime

structure AxSseEvent where
  event : Option String
  data : String
  id : Option String
  retryMs : Option UInt64
  deriving DecidableEq, Repr

def pushSseField (name : String) (value : List Char) : List Char := name.toList ++ ": ".toList ++ value ++ ['\n']

namespace AxSseEvent

/-- The lines of the data; a line feed at the end is followed by an empty one. -/
def dataLines (event : AxSseEvent) : List (List Char) :=
  Text.lineChars [] event.data.toList ++ if event.data.toList.getLast? = some '\n' then [[]] else []

def renderChars (event : AxSseEvent) : List Char :=
  (event.id.elim [] fun id => pushSseField "id" id.toList) ++
    (event.event.elim [] fun name => pushSseField "event" name.toList) ++
    (event.retryMs.elim [] fun retry => pushSseField "retry" (toString retry.toNat).toList) ++
    event.dataLines.flatMap (pushSseField "data") ++ ['\n']

def render (event : AxSseEvent) : String := .ofList event.renderChars

end AxSseEvent

/-- The body of `AxHttpResponse::sse_events`. -/
def sseEvents (events : List AxSseEvent) : String := .ofList (events.flatMap AxSseEvent.renderChars)

section Data

/-- The lines of a text that is not empty, the empty one behind a last line feed included. -/
def segments (line : List Char) : List Char → List (List Char)
  | [] => [line]
  | c :: rest => if c = '\n' then Text.withoutReturn line :: segments [] rest else segments (line ++ [c]) rest

theorem lineChars_segments (line text : List Char) (present : line ++ text ≠ []) :
    Text.lineChars line text ++ (if text.getLast? = some '\n' then [[]] else []) = segments line text := by
  induction text generalizing line with
  | nil =>
    rw [List.append_nil] at present
    simp [Text.lineChars, segments, List.isEmpty_iff, present]
  | cons c rest ih =>
    have last : rest ≠ [] → (c :: rest).getLast? = rest.getLast? := by
      intro more
      rw [List.getLast?_cons]
      obtain ⟨d, found⟩ := Option.isSome_iff_exists.mp (List.getLast?_isSome.mpr more)
      rw [found]
      rfl
    rw [Text.lineChars, segments]
    by_cases feed : c = '\n'
    · rw [if_pos feed, if_pos feed]
      cases rest with
      | nil => simp [Text.lineChars, segments, feed]
      | cons d rest =>
        rw [last (List.cons_ne_nil _ _), List.cons_append, ih [] (List.cons_ne_nil _ _)]
    · rw [if_neg feed, if_neg feed]
      cases rest with
      | nil => simp [Text.lineChars, segments, feed]
      | cons d rest =>
        rw [last (List.cons_ne_nil _ _), ih (line ++ [c]) (by simp)]

def feedOf (c : Char) : Char := if c = '\r' then '\n' else c

open EventStream (normalized)

/-- A piece of a line, and the state behind it. -/
theorem normalized_append {line : List Char} (inside : '\n' ∉ line) (flag : Bool) (rest : List Char) :
    normalized flag (line ++ rest) = line.map feedOf ++
      normalized (if line = [] then flag else line.getLast? = some '\r') rest := by
  induction line generalizing flag with
  | nil => rfl
  | cons c line ih =>
    have notFeed : c ≠ '\n' := fun same => inside (same ▸ List.mem_cons_self)
    have others : '\n' ∉ line := fun member => inside (List.mem_cons_of_mem _ member)
    rw [List.cons_append, normalized, if_neg notFeed, if_neg (List.cons_ne_nil c line), List.map_cons,
      List.cons_append, feedOf]
    have state : (if line = [] then decide (c = '\r') else decide (line.getLast? = some '\r')) =
        decide ((c :: line).getLast? = some '\r') := by
      cases line with
      | nil => simp
      | cons d line => simp [List.getLast?_cons_cons]
    by_cases carriage : c = '\r'
    · rw [if_pos carriage, if_pos carriage, ih others, ← state, decide_eq_true carriage]
    · rw [if_neg carriage, if_neg carriage, ih others, ← state, decide_eq_false carriage]

theorem withoutReturn_feeds (line : List Char) :
    line.map feedOf ++ (if line.getLast? = some '\r' then [] else ['\n']) =
      (Text.withoutReturn line).map feedOf ++ ['\n'] := by
  unfold Text.withoutReturn
  split
  · next last =>
    obtain ⟨front, rfl⟩ := List.getLast?_eq_some_iff.mp last
    rw [List.dropLast_concat, List.map_append, List.append_nil]
    rfl
  · rfl

/-- The normalized text, line by line: a carriage return that is still in a line ends another. -/
theorem normalized_segments (line text : List Char) (inside : '\n' ∉ line) :
    normalized false (line ++ text) ++ ['\n'] =
      (segments line text).flatMap fun line => line.map feedOf ++ ['\n'] := by
  induction text generalizing line with
  | nil =>
    rw [normalized_append inside, segments, List.flatMap_singleton, normalized, List.append_nil]
  | cons c rest ih =>
    rw [segments]
    by_cases feed : c = '\n'
    · subst feed
      have first := ih [] (List.not_mem_nil)
      rw [List.nil_append] at first
      rw [if_pos rfl, List.flatMap_cons, ← first, ← withoutReturn_feeds, normalized_append inside,
        normalized, if_pos rfl]
      by_cases empty : line = []
      · subst empty
        rfl
      · rw [if_neg empty]
        by_cases last : line.getLast? = some '\r'
        · simp [last]
        · simp [last]
    · have more : '\n' ∉ line ++ [c] := by simp [inside, Ne.symm feed]
      rw [if_neg feed, ← ih (line ++ [c]) more, List.append_assoc]
      rfl

end Data

section Rendering

open EventStream

variable (event : AxSseEvent)

namespace AxSseEvent

/-- What a client should make of an event. -/
def message : Message where
  id := event.id
  event := event.event
  retry := event.retryMs.map UInt64.toNat
  data := .ofList (normalized false event.data.toList)

/-- The id and the name stand on one line, there are data, and every carriage return in them
stands in front of a line feed. -/
structure Transparent : Prop where
  idLine : ∀ id, event.id = some id → OneLine id ∧ '\x00' ∉ id.toList
  nameLine : ∀ name, event.event = some name → OneLine name
  present : event.data ≠ ""
  returns : ∀ line ∈ Text.lines event.data, '\r' ∉ line.toList

/-- The lines in front of the data. -/
def headLines : List (List Char) :=
  (event.id.elim [] fun id => ["id: ".toList ++ id.toList]) ++
    (event.event.elim [] fun name => ["event: ".toList ++ name.toList]) ++
    (event.retryMs.elim [] fun retry => ["retry: ".toList ++ (toString retry.toNat).toList])

def dataLine (line : List Char) : List Char := "data: ".toList ++ line

theorem renderChars_lines : event.renderChars =
    event.headLines.flatMap (· ++ ['\n']) ++ (event.dataLines.map dataLine).flatMap (· ++ ['\n']) ++ ['\n'] := by
  have data : event.dataLines.flatMap (pushSseField "data") =
      (event.dataLines.map dataLine).flatMap (· ++ ['\n']) := by
    rw [List.flatMap_map]
    rfl
  unfold renderChars headLines
  rw [data]
  cases event.id <;> cases event.event <;> cases event.retryMs <;> simp [pushSseField]

theorem dataLines_segments (present : event.data ≠ "") : event.dataLines = segments [] event.data.toList := by
  refine lineChars_segments [] _ fun empty => present ?_
  rw [List.nil_append] at empty
  exact String.toList_inj.mp empty

theorem dataLines_empty (absent : event.data = "") : event.dataLines = [] := by
  rw [dataLines, absent]
  rfl

theorem returns_iff : (∀ line ∈ Text.lines event.data, '\r' ∉ line.toList) ↔
    ∀ line ∈ event.dataLines, '\r' ∉ line := by
  unfold dataLines Text.lines
  constructor
  · intro returns line member
    rcases List.mem_append.mp member with here | last
    · have free := returns (.ofList line) (List.mem_map_of_mem here)
      rwa [String.toList_ofList] at free
    · split at last
      · rw [List.mem_singleton.mp last]
        exact List.not_mem_nil
      · cases last
  · intro returns line member
    obtain ⟨chars, among, rfl⟩ := List.mem_map.mp member
    rw [String.toList_ofList]
    exact returns chars (List.mem_append_left _ among)

end AxSseEvent

theorem feed_of_segments {line text found : List Char} (inside : '\n' ∉ line)
    (member : found ∈ segments line text) : '\n' ∉ found := by
  induction text generalizing line with
  | nil =>
    rw [List.mem_singleton.mp member]
    exact inside
  | cons c rest ih =>
    rw [segments] at member
    split at member
    · rcases List.mem_cons.mp member with rfl | later
      · unfold Text.withoutReturn
        split
        · exact fun among => inside (List.dropLast_subset _ among)
        · exact inside
      · exact ih List.not_mem_nil later
    · next other =>
      refine ih (fun among => ?_) member
      rcases List.mem_append.mp among with old | new
      · exact inside old
      · exact other (List.mem_singleton.mp new).symm

theorem AxSseEvent.feed_of_dataLines {line : List Char} (member : line ∈ event.dataLines) : '\n' ∉ line := by
  by_cases absent : event.data = ""
  · rw [event.dataLines_empty absent] at member
    cases member
  · rw [event.dataLines_segments absent] at member
    exact feed_of_segments List.not_mem_nil member

theorem plain_of_absent {line : List Char} (feed : '\n' ∉ line) (carriage : '\r' ∉ line) :
    ∀ c ∈ line, isPlain c = true := by
  intro c member
  have notFeed : c ≠ '\n' := fun same => feed (same ▸ member)
  have notReturn : c ≠ '\r' := fun same => carriage (same ▸ member)
  simp [isPlain, notFeed, notReturn]

theorem plain_of_digit {c : Char} (digit : c.isDigit = true) : isPlain c = true := by
  have notFeed : c ≠ '\n' := by
    rintro rfl
    exact absurd digit (by decide)
  have notReturn : c ≠ '\r' := by
    rintro rfl
    exact absurd digit (by decide)
  simp [isPlain, notFeed, notReturn]

/-- Every finished line is found. -/
theorem lines_flatMap {text : List (List Char)} (plain : ∀ line ∈ text, ∀ c ∈ line, isPlain c = true)
    (rest : List Char) : lines [] false (text.flatMap (· ++ ['\n']) ++ rest) = text ++ lines [] false rest := by
  induction text with
  | nil => rfl
  | cons line text ih =>
    rw [List.flatMap_cons, List.append_assoc, List.append_assoc, List.singleton_append,
      lines_word (plain line List.mem_cons_self), ih fun line among => plain line (List.mem_cons_of_mem _ among)]
    rfl

theorem plain_append {name : List Char} (known : ∀ c ∈ name, isPlain c = true) {value : List Char}
    (plain : ∀ c ∈ value, isPlain c = true) : ∀ c ∈ name ++ value, isPlain c = true :=
  fun c member => (List.mem_append.mp member).elim (known c) (plain c)

/-- The lines in front of the data are plain if the id and the name are. -/
theorem AxSseEvent.headLines_plain (id : ∀ id, event.id = some id → OneLine id)
    (name : ∀ name, event.event = some name → OneLine name) :
    ∀ line ∈ event.headLines, ∀ c ∈ line, isPlain c = true := by
  intro line member
  unfold headLines at member
  rcases List.mem_append.mp member with first | retry
  · rcases List.mem_append.mp first with first | second
    · cases found : event.id with
      | none => rw [found] at first; cases first
      | some text =>
        rw [found] at first
        rw [List.mem_singleton.mp first]
        exact plain_append (by decide) (id text found)
    · cases found : event.event with
      | none => rw [found] at second; cases second
      | some text =>
        rw [found] at second
        rw [List.mem_singleton.mp second]
        exact plain_append (by decide) (name text found)
  · cases found : event.retryMs with
    | none => rw [found] at retry; cases retry
    | some number =>
      rw [found] at retry
      rw [List.mem_singleton.mp retry]
      refine plain_append (by decide) fun c among => plain_of_digit ?_
      rw [Nat.toString_eq_ofList_toDigits, String.toList_ofList] at among
      exact Text.digit_toDigits _ c among

/-- A field line reads as its name and its value. -/
theorem field_of (name value : List Char) (inside : ':' ∉ name) :
    field (name ++ ':' :: ' ' :: value) = (name, value) := by
  rw [field, Text.splitOnceChars_first inside]
  rfl

theorem weight_dataLine (line : List Char) : weight (AxSseEvent.dataLine line) = line.length + 1 := by
  have parts : field (AxSseEvent.dataLine line) = ("data".toList, line) :=
    field_of "data".toList line (by decide)
  rw [weight, parts]
  rfl

theorem set_dataLine (block : Block) (line : List Char) :
    block.set (AxSseEvent.dataLine line) = { block with data := block.data ++ line ++ ['\n'] } := by
  have parts : field (AxSseEvent.dataLine line) = ("data".toList, line) :=
    field_of "data".toList line (by decide)
  rw [Block.set, parts]
  rfl

/-- The data lines of a block fill its data. -/
theorem read_dataLines (block : Block) (text rest : List (List Char)) :
    EventStream.read block (text.map AxSseEvent.dataLine ++ rest) =
      EventStream.read { block with data := block.data ++ text.flatMap (· ++ ['\n']) } rest := by
  induction text generalizing block with
  | nil => simp
  | cons line text ih =>
    have present : (AxSseEvent.dataLine line).isEmpty = false := rfl
    rw [List.map_cons, List.cons_append, EventStream.read, present, if_neg Bool.false_ne_true, set_dataLine, ih]
    simp

theorem number_toString (n : Nat) : number (toString n).toList = some n := by
  rw [Nat.toString_eq_ofList_toDigits, String.toList_ofList, number, Text.foldl_toDigits, if_neg]
  rw [Bool.or_eq_true, not_or, List.isEmpty_iff, Bool.not_eq_true, Bool.not_eq_false']
  exact ⟨Nat.toDigits_ne_nil, List.all_eq_true.mpr (Text.digit_toDigits n)⟩

theorem set_id (block : Block) {value : List Char} (free : '\x00' ∉ value) :
    block.set ("id: ".toList ++ value) = { block with id := some (.ofList value) } := by
  have parts : field ("id: ".toList ++ value) = ("id".toList, value) :=
    field_of "id".toList value (by decide)
  rw [Block.set, parts]
  simp [free]

theorem set_event (block : Block) (value : List Char) :
    block.set ("event: ".toList ++ value) = { block with event := some (.ofList value) } := by
  have parts : field ("event: ".toList ++ value) = ("event".toList, value) :=
    field_of "event".toList value (by decide)
  rw [Block.set, parts]
  rfl

theorem set_retry (block : Block) (n : Nat) :
    block.set ("retry: ".toList ++ (toString n).toList) = { block with retry := some n } := by
  have parts : field ("retry: ".toList ++ (toString n).toList) = ("retry".toList, (toString n).toList) :=
    field_of "retry".toList _ (by decide)
  rw [Block.set, parts]
  change { block with retry := (number (toString n).toList).or block.retry } = _
  rw [number_toString]
  rfl

/-- The lines in front of the data set what the event has. -/
theorem read_headLines (free : ∀ id, event.id = some id → '\x00' ∉ id.toList) (rest : List (List Char)) :
    EventStream.read {} (event.headLines ++ rest) =
      EventStream.read { event.message with data := [] } rest := by
  have step (block : Block) (line : List Char) (rest : List (List Char)) (present : line ≠ []) :
      EventStream.read block (line :: rest) = EventStream.read (block.set line) rest := by
    rw [EventStream.read, if_neg]
    rwa [List.isEmpty_iff]
  have first (rest : List (List Char)) :
      EventStream.read {} ((event.id.elim [] fun id => ["id: ".toList ++ id.toList]) ++ rest) =
        EventStream.read { id := event.id } rest := by
    cases found : event.id with
    | none => rfl
    | some id =>
      refine (step _ _ _ (by simp)).trans ?_
      rw [set_id _ (free id found), String.ofList_toList]
      rfl
  have second (rest : List (List Char)) : EventStream.read { id := event.id }
      ((event.event.elim [] fun name => ["event: ".toList ++ name.toList]) ++ rest) =
        EventStream.read { id := event.id, event := event.event } rest := by
    cases event.event with
    | none => rfl
    | some name =>
      refine (step _ _ _ (by simp)).trans ?_
      rw [set_event, String.ofList_toList]
      rfl
  have third : EventStream.read { id := event.id, event := event.event }
      ((event.retryMs.elim [] fun retry => ["retry: ".toList ++ (toString retry.toNat).toList]) ++ rest) =
        EventStream.read { event.message with data := [] } rest := by
    cases found : event.retryMs with
    | none => simp [AxSseEvent.message, found]
    | some retry =>
      refine (step _ _ _ (by simp)).trans ?_
      rw [set_retry]
      simp [AxSseEvent.message, found]
  rw [AxSseEvent.headLines, List.append_assoc, List.append_assoc, first, second, third]

end Rendering

section Decoding

open EventStream

variable (event : AxSseEvent)

/-- The lines of an event's text. -/
def AxSseEvent.lines : List (List Char) := EventStream.lines [] false event.renderChars

theorem lines_events (events : List AxSseEvent) :
    EventStream.lines [] false (events.flatMap AxSseEvent.renderChars) = events.flatMap AxSseEvent.lines := by
  induction events with
  | nil => rfl
  | cons event rest ih =>
    rw [List.flatMap_cons, List.flatMap_cons, ← ih, AxSseEvent.lines, AxSseEvent.renderChars_lines,
      List.append_assoc, List.singleton_append, lines_append]

/-- The text of an event opens with no byte order mark. -/
theorem decode_sseEvents (events : List AxSseEvent) :
    decode (sseEvents events) = EventStream.read {} (events.flatMap AxSseEvent.lines) := by
  have opens : (events.flatMap AxSseEvent.renderChars).head? ≠ some '\uFEFF' := by
    cases events with
    | nil => nofun
    | cons event rest =>
      obtain ⟨name, data, id, retry⟩ := event
      rw [List.flatMap_cons]
      cases id with
      | some id => simp [AxSseEvent.renderChars, pushSseField]
      | none =>
        cases name with
        | some name => simp [AxSseEvent.renderChars, pushSseField]
        | none =>
          cases retry with
          | some retry => simp [AxSseEvent.renderChars, pushSseField]
          | none =>
            unfold AxSseEvent.renderChars
            cases AxSseEvent.dataLines _ <;> simp [pushSseField]
  rw [decode, sseEvents, String.toList_ofList, if_neg opens, lines_events]

/-- An event on clean lines is dispatched as it was sent. -/
theorem read_event {event : AxSseEvent} (transparent : event.Transparent) (rest : List (List Char)) :
    EventStream.read {} (event.lines ++ rest) = event.message :: EventStream.read {} rest := by
  have free := event.returns_iff.mp transparent.returns
  have plainData : ∀ line ∈ event.dataLines, ∀ c ∈ line, isPlain c = true := fun line member =>
    plain_of_absent (event.feed_of_dataLines member) (free line member)
  have plainHead := event.headLines_plain (fun id found => (transparent.idLine id found).1) transparent.nameLine
  have plain : ∀ line ∈ event.headLines ++ event.dataLines.map AxSseEvent.dataLine,
      ∀ c ∈ line, isPlain c = true := by
    intro line member
    rcases List.mem_append.mp member with head | data
    · exact plainHead line head
    · obtain ⟨value, among, rfl⟩ := List.mem_map.mp data
      exact plain_append (by decide) (plainData value among)
  have found : event.lines = event.headLines ++ event.dataLines.map AxSseEvent.dataLine ++ [[]] := by
    rw [AxSseEvent.lines, AxSseEvent.renderChars_lines, ← List.flatMap_append, lines_flatMap plain]
    rfl
  have data : event.dataLines.flatMap (· ++ ['\n']) = normalized false event.data.toList ++ ['\n'] := by
    have whole := normalized_segments [] event.data.toList List.not_mem_nil
    rw [List.nil_append, ← event.dataLines_segments transparent.present] at whole
    rw [whole]
    refine List.flatMap_congr fun line member => ?_
    have same : line.map feedOf = line := by
      refine (List.map_congr_left fun c among => ?_).trans (List.map_id line)
      have other : c ≠ '\r' := fun same => free line member (same ▸ among)
      exact if_neg other
    rw [same]
  rw [found, List.append_assoc, List.append_assoc, read_headLines event fun id found => (transparent.idLine id found).2,
    read_dataLines, List.singleton_append, EventStream.read, if_pos List.isEmpty_nil, Block.dispatch, data]
  simp [AxSseEvent.message]

/-- A data line sets no more than its text, and less where a carriage return breaks it. -/
theorem regroup (front before after ending : List Char) :
    front ++ (before ++ '\r' :: after) ++ ending = front ++ before ++ '\r' :: (after ++ ending) := by
  rw [List.append_assoc, List.append_assoc, List.append_assoc, List.cons_append]

theorem dataLine_weight {line : List Char} (feed : '\n' ∉ line) :
    ((EventStream.lines [] false (AxSseEvent.dataLine line ++ ['\n'])).map weight).sum ≤ line.length + 1 ∧
      ('\r' ∈ line →
        ((EventStream.lines [] false (AxSseEvent.dataLine line ++ ['\n'])).map weight).sum ≤ line.length) := by
  by_cases carriage : '\r' ∈ line
  · obtain ⟨before, after, rfl, first⟩ := List.eq_append_cons_of_mem carriage
    have plain : ∀ c ∈ AxSseEvent.dataLine before, isPlain c = true :=
      plain_append (by decide) (plain_of_absent (fun member => feed (List.mem_append_left _ member)) first)
    have cut : EventStream.lines [] false (AxSseEvent.dataLine (before ++ '\r' :: after) ++ ['\n']) =
        AxSseEvent.dataLine before :: EventStream.lines [] true (after ++ ['\n']) := by
      have parts : AxSseEvent.dataLine (before ++ '\r' :: after) ++ ['\n'] =
          AxSseEvent.dataLine before ++ '\r' :: (after ++ ['\n']) := regroup _ before after _
      rw [parts, lines_plain plain, EventStream.lines, if_neg (by decide), if_pos rfl]
      rfl
    have rest := lines_weight [] true after
    rw [cut, List.map_cons, List.sum_cons, weight_dataLine]
    simp only [List.length_append, List.length_cons, List.length_nil] at rest ⊢
    omega
  · have plain : ∀ c ∈ AxSseEvent.dataLine line, isPlain c = true :=
      plain_append (by decide) (plain_of_absent feed carriage)
    rw [lines_word plain, List.map_cons, List.sum_cons, weight_dataLine]
    exact ⟨Nat.le_refl _, fun broken => absurd broken carriage⟩

theorem headLines_weight : (event.headLines.map weight).sum = 0 := by
  have idField (value : List Char) : weight ("id: ".toList ++ value) = 0 := by
    have parts : field ("id: ".toList ++ value) = ("id".toList, value) := field_of "id".toList value (by decide)
    rw [weight, parts]
    rfl
  have nameField (value : List Char) : weight ("event: ".toList ++ value) = 0 := by
    have parts : field ("event: ".toList ++ value) = ("event".toList, value) :=
      field_of "event".toList value (by decide)
    rw [weight, parts]
    rfl
  have retryField (value : List Char) : weight ("retry: ".toList ++ value) = 0 := by
    have parts : field ("retry: ".toList ++ value) = ("retry".toList, value) :=
      field_of "retry".toList value (by decide)
    rw [weight, parts]
    rfl
  unfold AxSseEvent.headLines
  cases event.id <;> cases event.event <;> cases event.retryMs <;>
    simp only [Option.elim, List.nil_append, List.append_nil, List.map_append, List.map_cons, List.map_nil,
      List.sum_append, List.sum_cons, List.sum_nil, Nat.add_zero, idField, nameField, retryField]

/-- The texts of several lines, each finished, are read one after the other. -/
theorem flatMap_weight (text : List (List Char)) :
    ((EventStream.lines [] false ((text.map AxSseEvent.dataLine).flatMap (· ++ ['\n']) ++ ['\n'])).map weight).sum =
      (text.map fun line =>
        ((EventStream.lines [] false (AxSseEvent.dataLine line ++ ['\n'])).map weight).sum).sum := by
  induction text with
  | nil => rfl
  | cons line text ih =>
    rw [List.map_cons, List.flatMap_cons, List.append_assoc, List.append_assoc, List.singleton_append,
      lines_append, List.map_append, List.sum_append, ih, List.map_cons, List.sum_cons]

/-- The lines of an event set no more data than it has, and fewer unless it is transparent. -/
theorem event_weight (plain : ∀ line ∈ event.headLines, ∀ c ∈ line, isPlain c = true) :
    (event.lines.map weight).sum ≤ event.message.data.length + 1 ∧
      (event.data = "" ∨ (∃ line ∈ event.dataLines, '\r' ∈ line) →
        (event.lines.map weight).sum < event.message.data.length + 1) := by
  have total : (event.lines.map weight).sum = (event.dataLines.map fun line =>
      ((EventStream.lines [] false (AxSseEvent.dataLine line ++ ['\n'])).map weight).sum).sum := by
    rw [AxSseEvent.lines, AxSseEvent.renderChars_lines, List.append_assoc, lines_flatMap plain, List.map_append,
      List.sum_append, headLines_weight, flatMap_weight, Nat.zero_add]
  by_cases absent : event.data = ""
  · rw [event.dataLines_empty absent] at total
    rw [total]
    exact ⟨Nat.zero_le _, fun _ => Nat.succ_pos _⟩
  · have length : event.message.data.length + 1 = (event.dataLines.map fun line => line.length + 1).sum := by
      have whole := congrArg List.length (normalized_segments [] event.data.toList List.not_mem_nil)
      rw [List.nil_append, ← event.dataLines_segments absent, List.length_append, List.length_flatMap] at whole
      simpa [AxSseEvent.message, Function.comp_def] using whole
    have each : ∀ line ∈ event.dataLines,
        ((EventStream.lines [] false (AxSseEvent.dataLine line ++ ['\n'])).map weight).sum ≤ line.length + 1 :=
      fun line member => (dataLine_weight (event.feed_of_dataLines member)).1
    rw [total, length]
    refine ⟨List.sum_le_sum each, fun broken => ?_⟩
    obtain ⟨line, member, carriage⟩ := broken.resolve_left absent
    refine List.sum_lt_sum _ _ each ⟨line, member, ?_⟩
    exact Nat.lt_succ_of_le ((dataLine_weight (event.feed_of_dataLines member)).2 carriage)

/-- `data: "order 1\r\rdata: paid"`, one event of two lines. -/
def orderEvent : AxSseEvent := ⟨none, "order 1\r\rdata: paid", none, none⟩

end Decoding

end Axonyx.Runtime
