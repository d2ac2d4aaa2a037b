import Lexing.Proofs.Brace.Derivation

/-! Sources that are joined by a line feed. What was scanned without an error up to
the end of a source is scanned alike in front of another line, and what stands on
the lines below is scanned as if it stood alone, only further down. -/

namespace Lexing

def Source.joinLines (a b : Source) : Source := .ofChars (a.chars ++ '\n' :: b.chars)

/-- Where a place of a source is once it stands below another one. -/
def Position.below (a : Source) (p : Position) : Position :=
  ⟨p.offset + (a.length + 1), p.line + (1 + a.bytes.count lineFeed), p.column⟩

def Token.move {τ : Type} (f : Position → Position) (t : Token τ) : Token τ :=
  { t with position := f t.position }

/-- The same item at another place. -/
def moveItem {τ : Type} (f : Position → Position) : Item τ → Item τ
  | .ok token => .ok (token.move f)
  | .error e => .error { e with position := f e.position }

theorem Source.bytes_joinLines (a b : Source) :
    (a.joinLines b).bytes = a.bytes ++ lineFeed :: b.bytes := by
  rw [(a.joinLines b).bytes_eq, a.bytes_eq, b.bytes_eq]
  show encode (a.chars ++ '\n' :: b.chars) = _
  rw [encode_append]
  rfl

/-- Behind the line feed the lines are those of the second source, further down, as
long as all of them can be counted. -/
theorem Position.below_pass {a b : Source} (hlen : a.length + b.length < Position.limit - 1)
    {bs : List UInt8} (hbs : bs.length ≤ b.length) :
    (start.pass bs).below a = (start.pass (a.bytes ++ [lineFeed])).pass bs := by
  have hlena : a.length = a.bytes.length := rfl
  have hcount : bs.count lineFeed ≤ bs.length := List.count_le_length
  have hcounta : a.bytes.count lineFeed ≤ a.bytes.length := List.count_le_length
  have hline := lastLine_length_le bs
  have hcounts : (a.bytes ++ lineFeed :: bs).count lineFeed =
      a.bytes.count lineFeed + (bs.count lineFeed + 1) := by
    rw [List.count_append, List.count_cons_self]
  have hlengths : (a.bytes ++ lineFeed :: bs).length = a.bytes.length + (bs.length + 1) := by
    rw [List.length_append, List.length_cons]
  rw [← pass_append, List.append_assoc, List.singleton_append, start_pass, start_pass,
    lastLine_append_lineFeed, hcounts, hlengths, below]
  simp only [mk.injEq, and_true]
  refine ⟨by omega, ?_⟩
  rw [saturate_of_le (by omega), saturate_of_le (by omega)]
  omega

namespace Brace

variable {features : Features} {p : Position}

/-- A gap in front of another one, unless the first ends in a comment that goes on. -/
theorem Gap.append {comments : Bool} {gap mid gap' rest : List UInt8} (h : Gap comments gap mid)
    (h' : Gap comments gap' rest) (hhead : (∀ b ∈ mid.head?, b = lineFeed) →
      ∀ b ∈ (gap' ++ rest).head?, b = lineFeed) : Gap comments (gap ++ gap') rest := by
  induction h with
  | nil => exact h'
  | blank hblank _ ih => exact .blank hblank (ih hhead)
  | @comment body gap mid hcomments hbody hfeed _ ih =>
    -- Only a comment at the very end can be changed by what is put behind it.
    have hrest := ih hhead
    have hfeed' : ∀ b ∈ ((gap ++ gap') ++ rest).head?, b = lineFeed := by
      cases gap with
      | nil => exact hhead hfeed
      | cons b gap => exact hfeed
    have hgap := Gap.comment hcomments hbody hfeed' hrest
    rwa [← List.append_assoc] at hgap

/-- Only the first byte behind a gap tells whether it is one. -/
theorem Gap.of_head {comments : Bool} {gap mid rest : List UInt8} (h : Gap comments gap mid)
    (hhead : rest.head? = mid.head?) : Gap comments gap rest := by
  have hnil : Gap comments [] rest := .nil
  have hgap := h.append hnil (by rw [List.nil_append, hhead]; exact id)
  rwa [List.append_nil] at hgap

/-- A gap up to the end goes on over a line feed and over the gap behind that. -/
theorem Gap.append_lineFeed {comments : Bool} {gap gap' rest : List UInt8}
    (h : Gap comments gap []) (h' : Gap comments gap' rest) :
    Gap comments (gap ++ [lineFeed] ++ gap') rest := by
  have hgap : Gap comments (lineFeed :: gap') rest := .blank (by decide) h'
  have hjoin := h.append hgap fun _ b hb => (Option.some.inj hb).symm
  rwa [List.append_assoc, List.singleton_append]

section Lines

variable {lexeme tail bs : List UInt8} {token : Token Kinds}

/-- A line feed ends a word as the end of the input does. -/
theorem Lexes.append_lineFeed (h : Lexes features p lexeme tail (.ok token)) (bs : List UInt8) :
    Lexes features p lexeme (tail ++ lineFeed :: bs) (.ok token) := by
  cases h with
  | token hlexeme hbytes =>
    refine .token (hlexeme.of_tail rfl fun htail => ?_) hbytes
    cases tail with
    | nil =>
      rintro b ⟨⟩
      exact .inr (.inl (by decide))
    | cons b tail => exact htail

theorem Lexes.translate {item : Item Kinds} (h : Lexes features p lexeme tail item)
    (f : Position → Position) : Lexes features (f p) lexeme tail (moveItem f item) := by
  cases h with
  | token hlexeme hbytes => exact .token hlexeme hbytes
  | unterminated hquoted hnone => exact .unterminated hquoted hnone

/-- Items without an error stay as they are in front of another line. -/
theorem Lexed.join {items items' : List (Item Kinds)} (h : Lexed features p bs items)
    (hok : ∀ item ∈ items, item.isOk = true) {bs' : List UInt8}
    (h' : Lexed features (p.pass (bs ++ [lineFeed])) bs' items') :
    Lexed features p (bs ++ lineFeed :: bs') (items ++ items') := by
  induction h with
  | @stop p gap hgap =>
    have hlexed := h'.behind_gap fun _ _ hgap' => hgap.append_lineFeed hgap'
    rwa [List.append_assoc, List.singleton_append] at hlexed
  | @item p gap lexeme tail item items hgap hnone hlexes _ ih =>
    have hne := hlexes.ne_nil
    have hitem := hok item List.mem_cons_self
    obtain ⟨token, rfl⟩ : ∃ token, item = .ok token := by
      cases item with
      | ok token => exact ⟨token, rfl⟩
      | error e => contradiction
    -- A lexeme is not empty, so what follows the gap starts as it did before.
    have hhead : (lexeme ++ (tail ++ lineFeed :: bs')).head? = (lexeme ++ tail).head? := by
      obtain ⟨b, lexeme, rfl⟩ := List.exists_cons_of_ne_nil hne
      rfl
    have hfeed : ∀ b ∈ (lineFeed :: bs').head?, b ∈ blanks := by
      rintro b ⟨⟩
      decide
    have hnone' := hnone.append_blank (by simp [hne]) hfeed
    rw [List.append_assoc] at hnone'
    rw [List.append_assoc, Position.pass_append] at h'
    have hrest := ih (fun item hmem => hok item (List.mem_cons_of_mem _ hmem)) h'
    have hlexed := Lexed.item (hgap.of_head hhead) hnone' (hlexes.append_lineFeed bs') hrest
    rwa [← List.append_assoc] at hlexed

end Lines

/-- A change of place that agrees with passing over the bytes changes the items alike. -/
theorem Lexed.translate {bs : List UInt8} {items : List (Item Kinds)}
    (h : Lexed features p bs items) {f : Position → Position}
    (hf : ∀ front, front <+: bs → f (p.pass front) = (f p).pass front) :
    Lexed features (f p) bs (items.map (moveItem f)) := by
  induction h with
  | stop hgap => exact .stop hgap
  | @item p gap lexeme tail item items hgap hnone hlexes _ ih =>
    have hstart : f (p.pass gap) = (f p).pass gap := hf gap ⟨lexeme ++ tail, by simp⟩
    have hend : f (p.pass (gap ++ lexeme)) = (f p).pass (gap ++ lexeme) := hf _ ⟨tail, rfl⟩
    have hmoved := hlexes.translate f
    have hrest := ih fun front ⟨back, heq⟩ => by
      rw [← Position.pass_append, hf _ ⟨back, by rw [← heq]; simp⟩, hend, Position.pass_append]
    rw [hstart] at hmoved
    rw [hend] at hrest
    exact .item hgap hnone hmoved hrest

/-- A source without errors leaves what follows on the next line as it is: the
items of both, the latter as many lines and bytes further down. -/
theorem run_joinLines (features : Features) (a b : Source)
    (hlen : a.length + b.length < Position.limit - 1) : ∃ items last u items' last' u',
    Tokenizer.Run (.ofSource a features : BraceTokenizer) items last u ∧
      Tokenizer.Run (.ofSource b features : BraceTokenizer) items' last' u' ∧
      ((∀ item ∈ items, item.isOk = true) → ∃ v,
        Tokenizer.Run (.ofSource (a.joinLines b) features : BraceTokenizer)
          (items ++ items'.map (moveItem (.below a))) (last'.move (.below a)) v) := by
  obtain ⟨items, hlexed, hrun⟩ := exists_run features (Cursor.ofSource_onBoundary a)
  obtain ⟨items', hlexed', hrun'⟩ := exists_run features (Cursor.ofSource_onBoundary b)
  have hfront : Lexed features .start a.bytes items := hlexed
  have hback : Lexed features .start b.bytes items' := hlexed'
  refine ⟨items, _, _, items', _, _, hrun, hrun', fun hok => ?_⟩
  have hbelow : ∀ bs, bs <+: b.bytes → (Position.start.pass bs).below a =
      (Position.start.pass (a.bytes ++ [lineFeed])).pass bs :=
    fun bs hbs => Position.below_pass hlen hbs.length_le
  have hstart : Position.start.below a = Position.start.pass (a.bytes ++ [lineFeed]) :=
    hbelow [] List.nil_prefix
  have hend : (Position.start.pass b.bytes).below a =
      Position.start.pass (a.bytes ++ lineFeed :: b.bytes) := by
    rw [hbelow _ List.prefix_rfl, ← Position.pass_append, List.append_assoc,
      List.singleton_append]
  have hmoved := hback.translate (f := .below a) fun bs hbs => by rw [hbelow bs hbs, hstart]
  rw [hstart] at hmoved
  have hjoin := (hfront.join hok hmoved).run (Cursor.ofSource_onBoundary (a.joinLines b)) rfl
    (Source.bytes_joinLines a b)
  rw [← hend] at hjoin
  exact ⟨_, hjoin⟩

def wordCommented : Source := .ofString "x //c"

def quoteOpen : Source := .ofString "\"q"

/-- The comment ends with its line, and the error is on the next one. -/
theorem run_joinLines_quoteOpen :
    wordCommented.length + quoteOpen.length < Position.limit - 1 ∧ ∃ v,
      Tokenizer.Run (.ofSource (wordCommented.joinLines quoteOpen) .all : BraceTokenizer)
        [.ok ⟨.ofKind .string, some "x", ⟨0, 1, 1⟩⟩, .error ⟨.unterminated quoteMark, ⟨6, 2, 1⟩⟩,
          .ok ⟨.ofKind .string, some "q", ⟨7, 2, 2⟩⟩]
        (.sentinel (.ofKind .endOfInput) ⟨8, 2, 3⟩) v := by
  have hlen : wordCommented.length + quoteOpen.length < Position.limit - 1 := by decide
  obtain ⟨items, last, u, items', last', u', hrun, hrun', hjoin⟩ := run_joinLines .all _ _ hlen
  have hword : Tokenizer.Run (.ofSource wordCommented .all : BraceTokenizer)
      [.ok ⟨.ofKind .string, some "x", ⟨0, 1, 1⟩⟩] _ _ :=
    .item rfl (by rintro _ ⟨⟩; rfl) (.stop rfl rfl)
  have hquote : Tokenizer.Run (.ofSource quoteOpen .all : BraceTokenizer)
      [.error ⟨.unterminated quoteMark, ⟨0, 1, 1⟩⟩, .ok ⟨.ofKind .string, some "q", ⟨1, 1, 2⟩⟩]
      _ _ :=
    .item rfl (by rintro _ ⟨⟩) (.item rfl (by rintro _ ⟨⟩; rfl) (.stop rfl rfl))
  obtain ⟨rfl, -, -⟩ := hrun.unique hword
  obtain ⟨rfl, rfl, -⟩ := hrun'.unique hquote
  exact ⟨hlen, hjoin (by simp [Except.isOk, Except.toBool])⟩

end Brace

end Lexing
