import Lexing.Command.Program
import Lexing.Proofs.Brace.Quotes
import Lexing.Proofs.Command.Stopping
import Lexing.Proofs.Text.Quoted

/-! What a listing tells. Behind the header each item has a line of its own, and the lines
tell the items: tags, texts and places, and what is wrong where something is. -/

namespace Lexing.Command

/-- The first line of a listing, unless the path has several. -/
def header (path : String) (tokens : Nat) : String :=
  "Tokens for '" ++ path ++ "' (" ++ toString tokens ++ " tokens):"

/-- What a listing shows of an item: of the bytes of a token, only on demand where they
start and stop. -/
inductive Entry
  | shown (tag : Brace.Kinds) (data : Option String) (line column : Nat)
      (range : Option (Nat × Nat))
  | failed (kind : LexErrorKind) (line column : Nat)
  deriving DecidableEq

namespace Entry

def ofItem (offsets : Bool) : Item Brace.Kinds → Entry
  | .ok token => .shown token.tag token.text token.position.line token.position.column
      (if offsets then some (token.position.offset, token.stop) else none)
  | .error e => .failed e.kind e.position.line e.position.column

def placeText (line column : Nat) : String := toString line ++ ":" ++ toString column

def dataText : Option String → String
  | none => ""
  | some text => " " ++ Text.quoted text

def rangeText : Option (Nat × Nat) → String
  | none => ""
  | some (start, stop) => " [" ++ toString start ++ ".." ++ toString stop ++ "]"

def text : Entry → String
  | .shown tag data line column range =>
      "  " ++ padded tag.name ++ dataText data ++ " @ " ++ placeText line column ++ rangeText range
  | .failed kind line column => "  error: " ++ placeText line column ++ ": " ++ kind.message

/-- The entries of the items that a source can have: a single kind for a tag, and no error
but a quote without a partner. -/
inductive Listed : Entry → Prop
  | shown {kind data line column range} :
      Listed (.shown (.ofKind kind) data line column range)
  | failed {line column} : Listed (.failed (.unterminated Brace.quoteMark) line column)

end Entry

theorem encode_flatMap {α : Type} (f : α → List Char) (as : List α) :
    encode (as.flatMap f) = as.flatMap fun a => encode (f a) := List.flatMap_assoc

theorem lines_eq (texts : List String) :
    lines texts = encode (texts.flatMap fun text => text.toList ++ ['\n']) := by
  rw [encode_flatMap]
  simp only [encode_append]
  rfl

/-- A header with lines behind it, as characters. -/
theorem headed_eq (path : String) (tokens : Nat) (texts : List String) :
    textBytes (header path tokens) ++ lineFeed :: lines texts =
      encode ((header path tokens).toList ++ '\n' ::
        texts.flatMap fun text => text.toList ++ ['\n']) := by
  rw [encode_append, encode_cons, lines_eq]
  rfl

/-- The pieces of an item make up its line. -/
theorem itemPieces_eq (offsets : Bool) (item : Item Brace.Kinds) :
    (itemPieces offsets item).flatMap String.toList =
      (Entry.ofItem offsets item).text.toList ++ ['\n'] := by
  cases item with
  | error e =>
    simp [itemPieces, Entry.ofItem, Entry.text, Entry.placeText, LexError.message,
      Position.render]
  | ok token =>
    have hdata : (if token.isSentinel then [] else [" ", Text.quoted token.data]).flatMap
        String.toList = (Entry.dataText token.text).toList := by
      obtain ⟨tag, data, place⟩ := token
      cases data <;> simp [Token.isSentinel, Token.data, Entry.dataText]
    have hrange : (if offsets then [" [", toString token.position.offset, "..",
          toString token.stop, "]"] else []).flatMap String.toList = (Entry.rangeText
        (if offsets then some (token.position.offset, token.stop) else none)).toList := by
      cases offsets <;> simp [Entry.rangeText]
    simp only [itemPieces, tokenPieces, List.flatMap_append, hdata, hrange]
    simp [Entry.ofItem, Entry.text, Entry.placeText, Position.render]

theorem listing_eq (options : Options) (items : List (Item Brace.Kinds)) :
    (listing options items).flatMap String.toList =
      (header options.path (Summary.ofItems items).tokens).toList ++ '\n' ::
        ((items.map (Entry.ofItem options.offsets)).map Entry.text).flatMap
          fun text => text.toList ++ ['\n'] := by
  simp only [listing, List.flatMap_append, List.flatMap_assoc, itemPieces_eq, List.flatMap_map]
  simp [headerPieces, header]

namespace Entry

theorem name_ofKind (kind : Brace.Kind) : (Brace.Kinds.ofKind kind).name = kind.name := by
  cases kind <;> decide

/-- All names take the same room. -/
theorem length_padded_name (kind : Brace.Kind) : (padded kind.name).toList.length = 9 := by
  cases kind <;> decide

/-- No name is taken for the word in front of an error. -/
theorem head_padded_name (kind : Brace.Kind) : (padded kind.name).toList.head? ≠ some 'e' := by
  cases kind <;> decide

theorem padded_name_injective {kind other : Brace.Kind}
    (h : padded kind.name = padded other.name) : kind = other := by
  have hfind : ∀ kind : Brace.Kind,
      Brace.Kind.all.find? (fun other => padded other.name = padded kind.name) = some kind := by
    intro kind
    cases kind <;> decide
  have hsame := hfind other
  rw [← h, hfind kind] at hsame
  exact Option.some.inj hsame

section Unique

variable {s t : List Char}

theorem padded_unique {kind other : Brace.Kind}
    (h : (padded kind.name).toList ++ s = (padded other.name).toList ++ t) :
    kind = other ∧ s = t := by
  obtain ⟨hname, htail⟩ := List.append_inj h
    ((length_padded_name kind).trans (length_padded_name other).symm)
  exact ⟨padded_name_injective (String.toList_injective hname), htail⟩

/-- A separator that starts with no letter and no digit ends a number. -/
theorem head_separator {separator : String}
    (h : (separator.toList.head?.any fun c => !c.isAlphanum) = true) (s : List Char) :
    ∀ c ∈ (separator.toList ++ s).head?, c.isAlphanum = false := by
  cases hchars : separator.toList with
  | nil =>
    rw [hchars] at h
    contradiction
  | cons c cs =>
    rw [hchars] at h
    rintro d ⟨⟩
    simpa using h

theorem number_unique {separator : String} {m n : Nat}
    (hends : (separator.toList.head?.any fun c => !c.isAlphanum) = true)
    (h : (toString m).toList ++ (separator.toList ++ s) =
      (toString n).toList ++ (separator.toList ++ t)) : m = n ∧ s = t := by
  obtain ⟨hnumber, htail⟩ :=
    Text.toString_unique (head_separator hends s) (head_separator hends t) h
  exact ⟨hnumber, List.append_cancel_left htail⟩

theorem placeText_unique {line line' column column' : Nat}
    (hs : ∀ c ∈ s.head?, c.isAlphanum = false) (ht : ∀ c ∈ t.head?, c.isAlphanum = false)
    (h : (placeText line column).toList ++ s = (placeText line' column').toList ++ t) :
    line = line' ∧ column = column' ∧ s = t := by
  simp only [placeText, String.toList_append, List.append_assoc] at h
  obtain ⟨hline, hrest⟩ := number_unique (by decide) h
  exact ⟨hline, Text.toString_unique hs ht hrest⟩

theorem dataText_unique {data data' : Option String}
    (h : (dataText data).toList ++ (" @ ".toList ++ s) =
      (dataText data').toList ++ (" @ ".toList ++ t)) : data = data' ∧ s = t := by
  cases data with
  | none =>
    cases data' with
    | none => exact ⟨rfl, by simpa [dataText] using h⟩
    | some text => simp [dataText, Text.quoted] at h
  | some text =>
    cases data' with
    | none => simp [dataText, Text.quoted] at h
    | some text' =>
      simp only [dataText, String.toList_append, List.append_assoc] at h
      obtain ⟨rfl, htail⟩ := Text.quoted_unique (List.append_cancel_left h)
      exact ⟨rfl, List.append_cancel_left htail⟩

theorem rangeText_head (range : Option (Nat × Nat)) (s : List Char) :
    ∀ c ∈ ((rangeText range).toList ++ '\n' :: s).head?, c.isAlphanum = false := by
  cases range with
  | none =>
    rintro c ⟨⟩
    rfl
  | some range =>
    intro c hc
    simp only [rangeText, String.toList_append, List.append_assoc] at hc
    cases hc
    rfl

theorem rangeText_unique {range range' : Option (Nat × Nat)}
    (h : (rangeText range).toList ++ '\n' :: s = (rangeText range').toList ++ '\n' :: t) :
    range = range' ∧ s = t := by
  cases range with
  | none =>
    cases range' with
    | none => exact ⟨rfl, by simpa [rangeText] using h⟩
    | some range => simp [rangeText] at h
  | some range =>
    cases range' with
    | none => simp [rangeText] at h
    | some range' =>
      simp only [rangeText, String.toList_append, List.append_assoc] at h
      obtain ⟨hstart, hrest⟩ := number_unique (by decide) (List.append_cancel_left h)
      obtain ⟨hstop, htail⟩ := number_unique (by decide) hrest
      exact ⟨congrArg some (Prod.ext hstart hstop), (List.cons.inj htail).2⟩

theorem padded_ne_error (kind : Brace.Kind) (s t : List Char) :
    "  ".toList ++ ((padded kind.name).toList ++ s) ≠ "  error: ".toList ++ t := by
  intro h
  have hword : (padded kind.name).toList ++ s = "error: ".toList ++ t :=
    (List.cons.inj (List.cons.inj h).2).2
  cases hname : (padded kind.name).toList with
  | nil =>
    have hlength := length_padded_name kind
    rw [hname] at hlength
    contradiction
  | cons c cs =>
    rw [hname] at hword
    obtain rfl : c = 'e' := (List.cons.inj hword).1
    exact head_padded_name kind (by rw [hname]; rfl)

/-- A line tells its entry, and where the next one starts. -/
theorem Listed.unique {e e' : Entry} (he : e.Listed) (he' : e'.Listed)
    (h : e.text.toList ++ '\n' :: s = e'.text.toList ++ '\n' :: t) : e = e' ∧ s = t := by
  cases he with
  | shown =>
    cases he' with
    | shown =>
      simp only [text, name_ofKind, String.toList_append, List.append_assoc] at h
      obtain ⟨rfl, hdata⟩ := padded_unique (List.append_cancel_left h)
      obtain ⟨rfl, hplace⟩ := dataText_unique hdata
      obtain ⟨rfl, rfl, hrange⟩ :=
        placeText_unique (rangeText_head _ _) (rangeText_head _ _) hplace
      obtain ⟨rfl, rfl⟩ := rangeText_unique hrange
      exact ⟨rfl, rfl⟩
    | failed =>
      simp only [text, name_ofKind, String.toList_append, List.append_assoc] at h
      exact absurd h (padded_ne_error _ _ _)
  | failed =>
    cases he' with
    | shown =>
      simp only [text, name_ofKind, String.toList_append, List.append_assoc] at h
      exact absurd h.symm (padded_ne_error _ _ _)
    | failed =>
      simp only [text, String.toList_append, List.append_assoc] at h
      obtain ⟨rfl, rfl, hkind⟩ := placeText_unique (head_separator (by decide) _)
        (head_separator (by decide) _) (List.append_cancel_left h)
      exact ⟨rfl, (List.cons.inj (List.append_cancel_left (List.append_cancel_left hkind))).2⟩

end Unique

/-- Lines tell their entries one after another. -/
theorem lines_unique {es es' : List Entry} (hes : ∀ e ∈ es, e.Listed) (hes' : ∀ e ∈ es', e.Listed)
    (h : (es.map text).flatMap (fun line => line.toList ++ ['\n']) =
      (es'.map text).flatMap fun line => line.toList ++ ['\n']) : es = es' := by
  induction es generalizing es' with
  | nil =>
    cases es' with
    | nil => rfl
    | cons e' es' => simp at h
  | cons e es ih =>
    cases es' with
    | nil => simp at h
    | cons e' es' =>
      rw [List.forall_mem_cons] at hes hes'
      simp only [List.map_cons, List.flatMap_cons, List.append_assoc, List.singleton_append] at h
      obtain ⟨rfl, hrest⟩ := hes.1.unique hes'.1 h
      rw [ih hes.2 hes'.2 hrest]

/-- Whatever a token holds, its entry is on one line. -/
theorem Listed.lineFeed_not_mem {e : Entry} (he : e.Listed) : '\n' ∉ e.text.toList := by
  have hnumber : ∀ n, '\n' ∉ Nat.toDigits 10 n :=
    fun n => Text.lineFeed_not_mem_toDigits (by decide) (by decide)
  have hplace : ∀ line column, '\n' ∉ (placeText line column).toList := by
    intro line column
    simp [placeText, hnumber]
  cases he with
  | @shown kind data line column range =>
    have hname : '\n' ∉ (padded kind.name).toList := by
      cases kind <;> decide
    have hdata : '\n' ∉ (dataText data).toList := by
      cases data with
      | none => decide
      | some text => simp [dataText, Text.lineFeed_not_mem_quoted]
    have hrange : '\n' ∉ (rangeText range).toList := by
      cases range with
      | none => decide
      | some range => simp [rangeText, hnumber]
    simp [text, name_ofKind, hname, hdata, hplace, hrange]
  | failed =>
    have hmessage : '\n' ∉ (LexErrorKind.unterminated Brace.quoteMark).message.toList := by decide
    simp [text, hplace, hmessage]

end Entry

/-- What is listed of a source: all of its items, each on a line of its own. -/
structure Lists (options : Options) (source : Source) (summary : Summary)
    (items : List (Item Brace.Kinds)) : Prop where
  run : ∃ front last u, items = front ++ [.ok last] ∧
    Tokenizer.Run (.ofSource source options.features : BraceTokenizer) front last u
  written : (lexSource options source .unlimited).written =
    textBytes (header options.path summary.tokens) ++ lineFeed ::
      lines ((items.map (Entry.ofItem options.offsets)).map Entry.text)
  length_eq : items.length = summary.tokens + summary.errors
  one_line : ∀ item ∈ items, lineFeed ∉ textBytes (Entry.ofItem options.offsets item).text

section Lossless

variable {options : Options} {source : Source}

/-- Each item of a run has an entry that its line can tell. -/
theorem Entry.listed_of_lexed {features : Brace.Features} {p : Position} {bs : List UInt8}
    {items : List (Item Brace.Kinds)} (h : Brace.Lexed features p bs items) (offsets : Bool) :
    ∀ item ∈ items, (Entry.ofItem offsets item).Listed := by
  intro item hitem
  obtain ⟨front, back, rfl⟩ := List.append_of_mem hitem
  obtain ⟨before, lexeme, tail, rfl, hlexes, -⟩ := h.split
  cases hlexes with
  | token _ _ => exact .shown
  | unterminated _ _ => exact .failed

theorem listed_eq_ok {keepGoing : Bool} {items items' : List (Item Brace.Kinds)}
    (h : listed keepGoing items = .ok items') : items = items' := by
  rw [listed] at h
  split at h
  · exact Except.ok.inj h
  · split at h
    · contradiction
    · exact Except.ok.inj h

/-- A source that is listed at all is listed to its end. -/
theorem scan_eq_ok {items : List (Item Brace.Kinds)} (h : scan options source = .ok items) :
    ∃ front last u, items = front ++ [.ok last] ∧
      Tokenizer.Run (.ofSource source options.features : BraceTokenizer) front last u ∧
      ∀ item ∈ items, (Entry.ofItem options.offsets item).Listed := by
  obtain ⟨front, last, u, hrun, hscan⟩ := exists_scan source options.features
  obtain ⟨front', hlexed, hrun'⟩ :=
    Brace.exists_run options.features (Cursor.ofSource_onBoundary source)
  obtain ⟨rfl, rfl, -⟩ := hrun.unique hrun'
  rw [hscan options rfl] at h
  obtain rfl : front ++ [_] = items := by
    cases hlisted : listed options.keepGoing (front ++ _) with
    | ok items' =>
      rw [hlisted] at h
      exact (listed_eq_ok hlisted).trans (Except.ok.inj h)
    | error e =>
      rw [hlisted] at h
      contradiction
  refine ⟨front, _, u, rfl, hrun, ?_⟩
  rw [List.forall_mem_append, List.forall_mem_singleton]
  exact ⟨Entry.listed_of_lexed hlexed options.offsets, .shown⟩

theorem exists_lists {summary : Summary}
    (h : (lexSource options source .unlimited).result = .ok summary) :
    ∃ items, Lists options source summary items ∧
      ∀ item ∈ items, (Entry.ofItem options.offsets item).Listed := by
  cases hscan : scan options source with
  | error e =>
    rw [lexSource_of_scan_error hscan] at h
    contradiction
  | ok items =>
    obtain ⟨front, last, u, hitems, hrun, hlisted⟩ := scan_eq_ok hscan
    have hsource := lexSource_of_scan_ok hscan .unlimited
    rw [Sink.deliver_unlimited] at hsource
    rw [hsource] at h
    obtain rfl : Summary.ofItems items = summary := Except.ok.inj h
    refine ⟨items, ⟨⟨front, last, u, hitems, hrun⟩, ?_, ?_, ?_⟩, hlisted⟩
    · rw [hsource]
      show (listing options items).flatMap (fun piece => encode piece.toList) = _
      rw [← encode_flatMap, listing_eq, headed_eq]
    · simpa [Summary.ofItems] using List.length_eq_countP_add_countP (l := items) (·.isOk)
    · intro item hitem hfeed
      exact (hlisted item hitem).lineFeed_not_mem (lineFeed_mem_of_encode hfeed)

/-- Lines behind headers of the same path are the same only if their entries are. -/
theorem headed_unique {path : String} {m n : Nat} {es es' : List Entry}
    (hes : ∀ e ∈ es, e.Listed) (hes' : ∀ e ∈ es', e.Listed)
    (h : textBytes (header path m) ++ lineFeed :: lines (es.map Entry.text) =
      textBytes (header path n) ++ lineFeed :: lines (es'.map Entry.text)) : es = es' := by
  rw [headed_eq, headed_eq] at h
  have hchars := encode_injective h
  simp only [header, String.toList_append, List.append_assoc] at hchars
  have hcount := List.append_cancel_left (List.append_cancel_left (List.append_cancel_left hchars))
  obtain ⟨-, hlines⟩ := Entry.number_unique (by decide) hcount
  exact Entry.lines_unique hes hes' (List.cons.inj hlines).2

/-- Every listing that succeeds has one line for each item of its source, and listings that
are written alike show the same. -/
theorem lexSource_lossless {a b : Source} {m n : Summary}
    (ha : (lexSource options a .unlimited).result = .ok m)
    (hb : (lexSource options b .unlimited).result = .ok n) : ∃ items items',
      Lists options a m items ∧ Lists options b n items' ∧
        ((lexSource options a .unlimited).written = (lexSource options b .unlimited).written →
          items.map (Entry.ofItem options.offsets) =
            items'.map (Entry.ofItem options.offsets)) := by
  obtain ⟨items, hlists, hlisted⟩ := exists_lists ha
  obtain ⟨items', hlists', hlisted'⟩ := exists_lists hb
  refine ⟨items, items', hlists, hlists', fun heq => ?_⟩
  rw [hlists.written, hlists'.written] at heq
  exact headed_unique (List.forall_mem_map.mpr hlisted) (List.forall_mem_map.mpr hlisted') heq

/-- Two lines in quotes, a quote without a partner, and a comment that ends in `last`. -/
def quotedLines (last : Char) : Source :=
  .ofChars ("\"x\n\" ".toList ++ "//".toList ++ [last, '\n', '"'])

def allShown : Options := ⟨"-", true, true, true, true⟩

/-- What is in a comment is not listed, so that both sources have the same listing. -/
theorem lexSource_lossless_comments : ∃ m n,
    (lexSource allShown (quotedLines 'a') .unlimited).result = .ok m ∧
    (lexSource allShown (quotedLines 'b') .unlimited).result = .ok n ∧
    ∃ items items', Lists allShown (quotedLines 'a') m items ∧
      Lists allShown (quotedLines 'b') n items' ∧
      items.map (Entry.ofItem true) = items'.map (Entry.ofItem true) := by
  have ha : (lexSource allShown (quotedLines 'a') .unlimited).result = .ok ⟨2, 1⟩ := by rfl
  have hb : (lexSource allShown (quotedLines 'b') .unlimited).result = .ok ⟨2, 1⟩ := by rfl
  obtain ⟨items, items', hlists, hlists', hsame⟩ := lexSource_lossless ha hb
  exact ⟨_, _, ha, hb, items, items', hlists, hlists', hsame (by rfl)⟩

end Lossless

end Lexing.Command
