import OpenLava.Ledger
import OpenLava.Mbd.State

/-!
# The job group tree

Every job array and every job group has one counter per job status. `none` stands for `JOB_STAT_NULL`: the job was not
in the tree before, or leaves it.
-/

namespace OpenLava

open Ledger (updateEach)

def getIndexOfJStatus (status : Mask) : JgrpCounter :=
  let m := { status with unkwn := false, pdone := false, perr := false }
  if m = .PEND ∨ m = .RWAIT then .PEND
  else if m = .PSUSP then .NPSUSP
  else if m = .RUN then .NRUN
  else if m = .SSUSP then .NSSUSP
  else if m = .USUSP then .NUSUSP
  else if m = .EXIT ∨ m = { exit := true, wait := true } then .NEXIT
  else if m = .DONE ∨ m = { done := true, wait := true } then .NDONE
  else .outOfBound

/-- What a job with this status adds: one unit in its counter and one in `NJOBS`. -/
def jgrpUnit (status : Option Mask) (c : JgrpCounter) : Int :=
  match status with
  | none => 0
  | some m => (if getIndexOfJStatus m = c then 1 else 0) + if c = .NJOBS then 1 else 0

/-- The body of the loop of `updJgrpCountByJStatus`, on one node. -/
def JgTreeNode.count (oldStatus newStatus : Option Mask) (gPtr : JgTreeNode) : JgTreeNode :=
  match gPtr.nodeType with
  | .JOB => gPtr
  | .ARRAY | .GROUP =>
    { gPtr with counts := fun c => gPtr.counts c - jgrpUnit oldStatus c + jgrpUnit newStatus c }

/-- For a job whose node is given: the node and all its ancestors. -/
def updJgrpCountByJStatus (jgrpNode : NodeRef) (oldStatus newStatus : Option Mask) (s : Mbd) : Mbd :=
  { s with nodes := updateEach (fun _ => JgTreeNode.count oldStatus newStatus) jgrpNode.tails s.nodes }

/-- The counters are added, `factor` times, to those of the ancestors. -/
def updJgrpCountByOp (jgrp : NodeRef) (factor : Int) (s : Mbd) : Mbd :=
  let own := s.nodes jgrp
  let amount := fun c => if own.nodeType = .JOB ∨ c = .outOfBound then 0 else factor * own.counts c
  let add := fun gPtr : JgTreeNode => { gPtr with counts := fun c => gPtr.counts c + amount c }
  { s with nodes := updateEach (fun _ => add) jgrp.tails.tail s.nodes }

end OpenLava
