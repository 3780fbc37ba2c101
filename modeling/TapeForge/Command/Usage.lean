import TapeForge.Command.Table

/-!
# Usage

One line for each command of a table: its names in ascending order and what it does, and below it,
two blanks deeper, the commands that become visible after it. Lines are in ascending order of their
first name.
-/

namespace TapeForge.Command

/-- A command as usage shows it. -/
inductive Item where
  | mk (names : List Bytes) (description : Bytes) (subs : List Item)

namespace Item

def names : Item → List Bytes
  | mk ns _ _ => ns

def sortNames (ns : List Bytes) : List Bytes := ns.mergeSort fun a b => Bytes.compare a b != .gt

def sort (items : List Item) : List Item :=
  items.mergeSort fun a b => Bytes.compare (a.names.headD []) (b.names.headD []) != .gt

mutual

def ofCommand {σ : Type} (names : List Bytes) : Command σ → Item
  | .mk _ subs description => mk (sortNames names) description (sort (ofEntries subs))

/-- The items of a table; names that are bound to nothing are left out. -/
def ofEntries {σ : Type} : List (Entry (Command σ)) → List Item
  | [] => []
  | ⟨names, some c⟩ :: rest => ofCommand names c :: ofEntries rest
  | ⟨_, none⟩ :: rest => ofEntries rest

end

mutual

def lines (depth : Nat) : Item → List Bytes
  | mk names description subs =>
    (List.replicate (2 * depth) 32 ++ ([44, 32] : Bytes).intercalate names ++
      (if description.isEmpty then [] else 9 :: description)) ::
    linesAll (depth + 1) subs

def linesAll (depth : Nat) : List Item → List Bytes
  | [] => []
  | i :: rest => lines depth i ++ linesAll depth rest

end

end Item

def Table.usageLines {σ : Type} (t : Table σ) : List Bytes :=
  Item.linesAll 0 (Item.sort (Item.ofEntries t))

def Table.usage {σ : Type} (t : Table σ) : Bytes := t.usageLines.flatMap (· ++ [10])

/-- The command that asks for usage. It only fails: usage is what its failure shows. -/
def helpCommand (σ : Type) : Command σ :=
  .mk (some ⟨[], fun _ s => (s, some .help)⟩) [] (Bytes.ofString "print this usage")

def Table.initial (σ : Type) : Table σ :=
  [⟨["-h", "help", "-help", "--help"].map Bytes.ofString, some (helpCommand σ)⟩]

end TapeForge.Command
