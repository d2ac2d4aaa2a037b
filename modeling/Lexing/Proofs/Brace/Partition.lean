import Lexing.Proofs.Brace.Scan

/-! The source as gaps and lexemes. A run loses no byte and counts none twice:
its lexemes, with the gaps around them, make up the source again. -/

namespace Lexing.Brace

/-- The bytes that an item stands for: an error stands for the quote. -/
def itemBytes : Item Kinds → List UInt8
  | .ok token => token.bytes
  | .error _ => [quoteMark]

def itemOffset : Item Kinds → Nat
  | .ok token => token.position.offset
  | .error e => e.position.offset

/-- Bytes that start at some offset, as gaps with the lexemes of items between
them. Each item is placed where its lexeme is, and no lexeme starts like a gap. -/
inductive Partition (comments : Bool) : Nat → List UInt8 → List (Item Kinds) → Prop
  | gap {o gap} : Gap comments gap [] → Partition comments o gap []
  | item {o gap item rest items} : Gap comments gap (itemBytes item ++ rest) →
      itemOffset item = o + gap.length → itemBytes item ≠ [] → NoGap comments (itemBytes item) →
      Partition comments (o + gap.length + (itemBytes item).length) rest items →
      Partition comments o (gap ++ itemBytes item ++ rest) (item :: items)

theorem Lexes.itemBytes_eq {features : Features} {p : Position} {lexeme tail : List UInt8}
    {item : Item Kinds} (h : Lexes features p lexeme tail item) : itemBytes item = lexeme := by
  cases h with
  | token _ hbytes => exact hbytes
  | unterminated _ _ => rfl

theorem Lexes.itemOffset_eq {features : Features} {p : Position} {lexeme tail : List UInt8}
    {item : Item Kinds} (h : Lexes features p lexeme tail item) : itemOffset item = p.offset := by
  cases h with
  | token _ _ | unterminated _ _ => rfl

theorem Lexed.partition {features : Features} {p : Position} {bs : List UInt8}
    {items : List (Item Kinds)} (h : Lexed features p bs items) :
    Partition features.lineComments p.offset bs items := by
  induction h with
  | stop hgap => exact .gap hgap
  | @item p gap lexeme tail item items hgap hnone hlexes _ ih =>
    have hbytes := hlexes.itemBytes_eq
    have hne := hlexes.ne_nil
    have hoffset : itemOffset item = p.offset + gap.length := by
      rw [hlexes.itemOffset_eq, Position.pass_offset]
    rw [Position.pass_offset, List.length_append, ← Nat.add_assoc] at ih
    subst hbytes
    exact .item hgap hoffset hne hnone.of_append ih

theorem Lexed.cut {features : Features} {p : Position} {bs : List UInt8}
    {items : List (Item Kinds)} (h : Lexed features p bs items) {c : Cursor} (hc : c.OnBoundary)
    (hp : c.position = p) (hrest : c.rest = bs) : ∀ token, .ok token ∈ items →
      c.source.cut? token.position.offset token.stop = some token.data := by
  induction h generalizing c with
  | stop _ =>
    intro token hmem
    contradiction
  | @item p gap lexeme tail item items hgap _ hlexes _ ih =>
    subst hp
    rw [List.append_assoc] at hrest
    have hgapEnd := hgap.onBoundary hc hrest
    have hlexeme := Cursor.rest_pass hrest
    have hend := hlexes.onBoundary hgapEnd hlexeme
    have htail := Cursor.rest_pass hlexeme
    rw [← Cursor.pass_append] at hend htail
    intro token hmem
    rcases List.mem_cons.mp hmem with rfl | hmem
    · exact Lexes.cut (c := c.pass gap) hlexes hgapEnd hlexeme
    · exact ih hend rfl htail token hmem

/-- The run over a source goes through all of its bytes in order, and ends at the
offset where they end. -/
theorem run_partition (source : Source) (features : Features) : ∃ items last u,
    Tokenizer.Run (.ofSource source features : BraceTokenizer) items last u ∧
      Partition features.lineComments 0 source.bytes items ∧
      (∀ token, .ok token ∈ items →
        source.cut? token.position.offset token.stop = some token.data) ∧
      last.position.offset = source.length := by
  have hstart := Cursor.ofSource_onBoundary source
  obtain ⟨items, hlexed, hrun⟩ := exists_run features hstart
  refine ⟨items, _, _, hrun, hlexed.partition, hlexed.cut hstart rfl rfl, ?_⟩
  have hlen := hstart.offset_add_length
  show (Position.start.pass _).offset = source.length
  rw [Position.pass_offset]
  exact hlen

end Lexing.Brace
