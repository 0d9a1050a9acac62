import BiomeMigration.Main
import BiomeMigration.Proofs.Biome.Writing
import BiomeMigration.Proofs.CommandLine.Effective
import BiomeMigration.Proofs.Directive.Backtracking
import BiomeMigration.Proofs.Directive.Configuration
import BiomeMigration.Proofs.Directive.Exactness
import BiomeMigration.Proofs.Directive.Lines
import BiomeMigration.Proofs.Directive.Refinement
import BiomeMigration.Proofs.Directive.Repetition
import BiomeMigration.Proofs.Directive.Returns
import BiomeMigration.Proofs.Directive.Survival
import BiomeMigration.Proofs.Files.Traversal
import BiomeMigration.Proofs.Log.Hierarchy
import BiomeMigration.Proofs.Migration.Answers
import BiomeMigration.Proofs.Migration.Convergence
import BiomeMigration.Proofs.Package.Edits
import BiomeMigration.Proofs.Package.Legacy
import BiomeMigration.Proofs.Package.Rewriting
import BiomeMigration.Proofs.Package.Uninstall
import BiomeMigration.Proofs.Probe.Ascent
import BiomeMigration.Proofs.Probe.Contents
import BiomeMigration.Proofs.Probe.Precedence
import BiomeMigration.Proofs.Scrub.Tree
import BiomeMigration.Proofs.Scrub.Walk
import BiomeMigration.Proofs.Session.Conversation
