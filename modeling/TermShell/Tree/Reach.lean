import TermShell.Tree.Basic

/-!
# What can be reached through children

`Arena.reach` follows the children of some nodes, their children and so on, and parts the
arena into the nodes it meets, in the order in which it meets them, and those it does
not. It meets no node twice, because a node that has been met is no longer in what
remains of the arena; that is also why it comes to an end, however the nodes refer to
each other.
-/

namespace TermShell

/-- The nodes that can be reached from the pending numbers, in depth-first order, and
what remains of the arena. -/
def Arena.reach (a : Arena) (pending : List Nat) : List Node × Arena :=
  match pending with
  | [] => ([], a)
  | id :: rest =>
    match _found : a.get? id with
    | some n =>
      let below := (a.erase id).reach (n.children ++ rest)
      (n :: below.1, below.2)
    | none => a.reach rest
termination_by (a.size, pending.length)
decreasing_by
  · exact Prod.Lex.left _ _ (Arena.size_erase_lt _found)
  · exact Prod.Lex.right _ (Nat.lt_succ_self _)

/-- What remains of an arena without all that can be reached from a number. -/
def Arena.prune (a : Arena) (id : Nat) : Arena := (a.reach [id]).2

end TermShell
