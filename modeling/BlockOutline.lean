import BlockOutline.Block.Slots
import BlockOutline.Files.Tree
import BlockOutline.Main
import BlockOutline.Proofs.Block.Conservation
import BlockOutline.Proofs.Block.Dump
import BlockOutline.Proofs.Block.Edits
import BlockOutline.Proofs.Block.Listing
import BlockOutline.Proofs.Block.OwnData
import BlockOutline.Proofs.Block.Splicing
import BlockOutline.Proofs.Block.Subtrees
import BlockOutline.Proofs.CommandLine.Shorthand
import BlockOutline.Proofs.Fixture.Categories
import BlockOutline.Proofs.Fixture.ExpectedErrors
import BlockOutline.Proofs.Fixture.Mismatches
import BlockOutline.Proofs.Fixture.Selection
import BlockOutline.Proofs.Fixture.Verdict
import BlockOutline.Proofs.Outline.ErrorOrder
import BlockOutline.Proofs.Outline.Nesting
import BlockOutline.Proofs.Outline.Trees
import BlockOutline.Proofs.Walk.Rebuilding
import BlockOutline.Proofs.Walk.Stack
