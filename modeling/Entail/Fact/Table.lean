import Entail.Fact
import Entail.Text.Quoted

/-! The fact table: each letter a rule book mentions, once, in the order it first appeared. -/

namespace Entail

open Text

/-- Facts under their letters, in order of first appearance, each letter once. -/
structure FactTable where
  entries : List (Char × Fact)
  nodup : (entries.map Prod.fst).Nodup

namespace FactTable

/-- The table with no facts. -/
def empty : FactTable := ⟨[], List.nodup_nil⟩

/-- The letters of the table, in order. -/
def keys (t : FactTable) : List Char := t.entries.map Prod.fst

/-- The fact under a letter; a fresh fact if the letter is absent. -/
def get (t : FactTable) (c : Char) : Fact := (t.entries.lookup c).getD .fresh

/-- Whether the table holds a letter. -/
def contains (t : FactTable) (c : Char) : Bool := t.keys.contains c

/-- Adds a fresh fact under a letter at the end, unless the letter is already there. -/
def register (t : FactTable) (c : Char) : FactTable :=
  if h : c ∈ t.keys then t
  else
    ⟨t.entries ++ [(c, .fresh)], by
      rw [List.map_append, List.nodup_append]
      refine ⟨t.nodup, by simp, ?_⟩
      intro a ha b hb
      simp only [List.map_cons, List.map_nil, List.mem_singleton] at hb
      subst hb
      exact fun hab => h (hab ▸ ha)⟩

/-- Changes the fact under a letter, keeping every letter and the order. -/
def modify (t : FactTable) (c : Char) (g : Fact → Fact) : FactTable :=
  ⟨t.entries.map fun e => (e.1, if e.1 = c then g e.2 else e.2), by
    rw [List.map_map]
    exact t.nodup⟩

/-- Changes every fact, keeping every letter and the order. -/
def modifyAll (t : FactTable) (g : Fact → Fact) : FactTable :=
  ⟨t.entries.map fun e => (e.1, g e.2), by
    rw [List.map_map]
    exact t.nodup⟩

/-- How the table is shown: `{'A': A: True [T], …}`. -/
def render (t : FactTable) : String :=
  "\x7b" ++ ", ".intercalate (t.entries.map fun e =>
    quote e.1.toString ++ ": " ++ e.2.render e.1.toString) ++ "\x7d"

end FactTable

end Entail
