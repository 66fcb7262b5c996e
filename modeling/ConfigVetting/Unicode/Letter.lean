import ConfigVetting.Unicode.Runs
import ConfigVetting.Unicode.Category

/-! # Letters and their case

The characters with the properties `Alphabetic`, `Uppercase` and `Lowercase`, and those that make up
words.
-/

namespace ConfigVetting.Unicode

/-- Whether a code point is alphabetic, by the labels `y` and `n`. -/
def alphabeticRuns : Runs := Runs.ofLines [
  "65n26y6n26y47n1y10n1y4n1y5n23y1n31y1n458y4n12y14n5y7n1y1n1y86n1y29n18y1n2y2n4y1n1y6n1y1n3y1n",
  "1y1n20y1n83y1n139y8n166y1n38y2n1y6n41y39n14y1n1y1n2y1n2y1n1y8n27y4n4y29n11y5n56y1n7y14n102y",
  "1n8y4n8y4n3y10n3y2n1y16n48y13n101y24n33y9n2y4n1y5n24y2n19y19n25y7n11y5n24y1n7y7n1y8n42y10n",
  "12y3n7y6n76y1n16y1n3y4n15y13n19y1n8y2n2y2n22y1n7y1n1y3n4y3n8y2n2y2n2y1n1y8n1y4n2y1n5y12n2y",
  "10n1y4n3y1n6y4n2y2n22y1n7y1n2y1n2y1n2y4n5y4n2y2n2y4n1y7n4y1n1y17n6y11n3y1n9y1n3y1n22y1n7y1n",
  "2y1n5y3n9y1n3y1n2y3n1y15n4y21n4y4n3y1n8y2n2y2n22y1n7y1n2y1n5y3n8y2n2y2n2y9n2y4n2y1n5y13n1y",
  "16n2y1n6y3n3y1n4y3n2y1n1y1n2y3n2y3n3y3n12y4n5y3n3y1n3y3n1y6n1y40n13y1n3y1n23y1n16y3n8y1n3y1n",
  "3y8n2y1n3y1n2y2n4y28n4y1n8y1n3y1n23y1n10y1n5y3n8y1n3y1n3y8n2y5n3y1n4y13n3y12n13y1n3y1n41y2n",
  "8y1n3y1n3y1n1y5n4y7n5y22n6y1n3y1n18y3n24y1n9y1n1y2n7y8n6y1n1y1n8y18n2y13n58y5n7y6n1y51n2y1n",
  "1y1n5y1n24y1n1y1n19y1n3y2n5y1n1y6n1y14n4y32n1y63n8y1n36y4n19y4n16y1n36y67n55y1n1y2n5y16n64y",
  "10n4y2n38y1n1y5n1y2n43y1n333y1n4y2n7y1n1y1n4y2n41y1n4y2n33y1n4y2n7y1n1y1n4y2n15y1n57y1n4y2n",
  "67y37n16y16n86y2n6y3n620y2n17y1n26y5n75y3n11y7n20y11n21y12n20y12n13y1n3y1n2y12n52y2n19y14n1y",
  "4n1y67n89y7n43y5n70y10n31y1n12y4n9y23n30y2n5y11n44y4n26y54n28y4n63y2n20y50n1y23n2y11n3y49n",
  "52y1n15y1n8y51n42y2n4y10n44y1n11y14n55y22n3y10n36y2n11y5n43y2n3y41n4y1n6y1n2y3n1y5n192y19n",
  "34y11n278y2n6y2n38y2n6y2n8y1n1y1n1y1n1y1n31y2n53y1n7y1n1y3n3y1n7y3n4y2n6y4n13y5n3y1n7y116n1y",
  "13n1y16n13y101n1y4n1y2n10y1n1y3n5y6n1y1n1y1n1y1n4y1n11y2n4y5n5y4n1y17n41y813n52y1814n229y6n",
  "4y3n2y12n38y1n1y5n1y2n56y7n1y16n23y9n7y1n7y1n7y1n7y1n7y1n7y1n7y1n7y1n32y47n1y469n3y25n9y7n5y",
  "2n5y4n86y6n3y1n90y1n4y5n43y1n94y17n32y48n16y512n6592y64n22157y67n46y2n269y3n16y10n2y20n47y5n",
  "8y3n113y39n9y2n103y2n82y20n21y1n33y24n52y12n68y1n1y44n6y3n1y1n3y10n33y5n35y13n29y3n51y1n12y",
  "15n1y16n16y10n5y1n55y9n14y18n23y3n69y1n1y1n1y24n3y2n16y2n4y11n6y2n6y2n6y9n7y1n7y1n43y1n14y6n",
  "123y21n11172y12n23y4n49y8452n366y2n106y38n7y12n5y5n12y1n13y1n5y1n1y1n2y1n2y1n108y33n363y18n",
  "64y2n54y40n12y116n5y1n135y36n26y6n26y11n89y3n6y2n6y2n6y2n3y35n12y1n26y1n19y1n2y1n15y2n14y34n",
  "123y69n53y267n29y3n49y47n32y13n30y5n43y5n30y2n36y4n8y1n5y42n158y18n36y4n36y4n40y8n52y12n11y",
  "1n15y1n7y1n2y1n11y1n15y1n7y1n2y3n52y12n311y9n22y10n8y24n6y1n42y1n9y69n6y2n1y1n44y1n2y3n1y2n",
  "23y10n23y9n31y65n19y1n2y10n22y10n26y6n26y38n56y6n2y64n4y1n2y5n8y1n3y1n29y42n29y3n29y35n8y1n",
  "28y27n54y10n22y10n19y13n18y110n73y55n51y13n51y13n40y34n28y3n1y5n23y250n42y1n2y3n2y16n6y50n3y",
  "3n29y10n1y8n22y42n18y46n21y27n23y9n70y43n5y10n57y9n1y13n25y23n51y17n4y8n35y3n1y9n64y1n4y9n2y",
  "10n1y1n1y35n18y1n34y2n1y6n4y62n7y1n1y1n4y1n15y1n10y7n57y23n4y1n8y2n2y2n22y1n7y1n2y1n5y3n8y2n",
  "2y2n2y3n1y6n1y5n7y28n10y1n1y2n1y1n38y1n10y1n1y2n1y1n4y1n2y3n1y1n1y44n66y1n3y1n4y20n3y30n66y",
  "2n2y1n1y184n54y2n7y25n6y34n63y1n1y3n1y59n54y2n1y71n27y2n14y21n7y185n57y103n64y31n8y2n1y2n8y",
  "1n2y1n30y1n2y2n2y2n4y93n8y2n46y2n6y1n1y1n2y27n51y2n10y17n72y5n1y18n73y103n8y88n33y31n9y1n45y",
  "1n7y1n1y49n30y2n22y1n14y73n7y1n2y1n44y3n1y1n2y1n3y1n1y2n2y24n6y1n2y1n37y1n2y1n4y1n1y23n44y",
  "260n23y9n17y1n41y3n3y111n1y79n922y102n111y17n196y2636n97y15n1072y17n6y25n3995y5n583y6841n47y",
  "1745n569y7n31y17n79y17n30y18n48y16n4y31n21y5n19y432n45y211n64y32n25y2n25y44n75y4n57y7n17y64n",
  "2y1n1y12n7y9n7382y41n32y97n115y8701n4y1n7y1n2y1n291y15n1y29n3y2n1y14n4y8n396y2308n107y5n13y",
  "3n9y7n10y4n1y5985n85y1n71y1n2y2n1y2n2y2n4y1n12y1n1y1n7y1n65y1n4y2n8y1n7y1n28y1n4y1n5y1n1y3n",
  "7y1n340y2n25y1n25y1n31y1n25y1n31y1n25y1n31y1n25y1n31y1n25y1n8y1844n31y6n6y213n7y1n17y2n7y1n",
  "2y1n5y5n62y33n1y112n45y10n7y16n1y321n30y18n44y484n28y228n30y2n1y207n31y1n22y8n2y224n7y1n4y1n",
  "2y1n15y1n197y59n68y3n1y3n1y1204n4y1n27y1n2y1n1y2n1y1n10y1n4y1n1y1n1y6n1y4n1y1n1y1n1y1n3y1n2y",
  "1n1y2n1y1n1y1n1y1n1y1n1y1n2y1n1y2n4y1n7y1n4y1n4y1n1y1n10y1n17y5n3y1n5y1n17y628n26y6n26y6n26y",
  "3702n42720y32n4382y2n5774y2n7473y15n622y2466n542y1506n4939y5n8490y904070n"]

/-- Whether a code point is in upper case, by the labels `y` and `n`. -/
def uppercaseRuns : Runs := Runs.ofLines [
  "65n26y101n23y1n7y33n1y1n1y1n1y1n1y1n1y1n1y1n1y1n1y1n1y1n1y1n1y1n1y1n1y1n1y1n1y1n1y1n1y1n1y1n",
  "1y1n1y1n1y1n1y1n1y1n1y1n1y1n1y1n1y1n1y2n1y1n1y1n1y1n1y1n1y1n1y1n1y1n1y2n1y1n1y1n1y1n1y1n1y1n",
  "1y1n1y1n1y1n1y1n1y1n1y1n1y1n1y1n1y1n1y1n1y1n1y1n1y1n1y1n1y1n1y1n1y1n1y1n2y1n1y1n1y3n2y1n1y1n",
  "2y1n3y2n4y1n2y1n3y3n2y1n2y1n1y1n1y1n2y1n1y2n1y1n2y1n3y1n1y1n2y3n1y7n1y2n1y2n1y2n1y1n1y1n1y1n",
  "1y1n1y1n1y1n1y1n1y2n1y1n1y1n1y1n1y1n1y1n1y1n1y1n1y1n1y2n1y2n1y1n3y1n1y1n1y1n1y1n1y1n1y1n1y1n",
  "1y1n1y1n1y1n1y1n1y1n1y1n1y1n1y1n1y1n1y1n1y1n1y1n1y1n1y1n1y1n1y1n1y1n1y1n1y1n1y1n1y1n1y1n1y7n",
  "2y1n2y2n1y1n4y1n1y1n1y1n1y1n1y289n1y1n1y3n1y8n1y6n1y1n3y1n1y1n2y1n17y1n9y35n1y2n3y3n1y1n1y1n",
  "1y1n1y1n1y1n1y1n1y1n1y1n1y1n1y1n1y1n1y5n1y2n1y1n2y2n51y48n1y1n1y1n1y1n1y1n1y1n1y1n1y1n1y1n1y",
  "1n1y1n1y1n1y1n1y1n1y1n1y1n1y1n1y9n1y1n1y1n1y1n1y1n1y1n1y1n1y1n1y1n1y1n1y1n1y1n1y1n1y1n1y1n1y",
  "1n1y1n1y1n1y1n1y1n1y1n1y1n1y1n1y1n1y1n1y1n1y1n1y1n2y1n1y1n1y1n1y1n1y1n1y1n1y2n1y1n1y1n1y1n1y",
  "1n1y1n1y1n1y1n1y1n1y1n1y1n1y1n1y1n1y1n1y1n1y1n1y1n1y1n1y1n1y1n1y1n1y1n1y1n1y1n1y1n1y1n1y1n1y",
  "1n1y1n1y1n1y1n1y1n1y1n1y1n1y1n1y1n1y1n1y1n1y1n1y1n1y1n1y1n1y1n1y1n1y1n1y1n1y1n1y1n1y2n38y",
  "2889n38y1n1y5n1y722n86y2195n1y6n43y2n3y320n1y1n1y1n1y1n1y1n1y1n1y1n1y1n1y1n1y1n1y1n1y1n1y1n",
  "1y1n1y1n1y1n1y1n1y1n1y1n1y1n1y1n1y1n1y1n1y1n1y1n1y1n1y1n1y1n1y1n1y1n1y1n1y1n1y1n1y1n1y1n1y1n",
  "1y1n1y1n1y1n1y1n1y1n1y1n1y1n1y1n1y1n1y1n1y1n1y1n1y1n1y1n1y1n1y1n1y1n1y1n1y1n1y1n1y1n1y1n1y1n",
  "1y1n1y1n1y1n1y1n1y1n1y1n1y1n1y1n1y1n1y1n1y1n1y1n1y1n1y1n1y1n1y1n1y9n1y1n1y1n1y1n1y1n1y1n1y1n",
  "1y1n1y1n1y1n1y1n1y1n1y1n1y1n1y1n1y1n1y1n1y1n1y1n1y1n1y1n1y1n1y1n1y1n1y1n1y1n1y1n1y1n1y1n1y1n",
  "1y1n1y1n1y1n1y1n1y1n1y1n1y1n1y1n1y1n1y1n1y1n1y1n1y1n1y1n1y1n1y1n1y1n1y1n1y1n1y9n8y8n6y10n8y",
  "8n8y8n6y11n1y1n1y1n1y1n1y8n8y72n4y12n4y12n4y12n5y11n4y262n1y4n1y3n3y2n3y2n1y3n5y6n1y1n1y1n1y",
  "1n4y2n4y10n2y5n1y26n16y19n1y818n26y1840n48y48n1y1n3y2n1y1n1y1n1y1n4y1n1y2n1y8n3y1n1y1n1y1n1y",
  "1n1y1n1y1n1y1n1y1n1y1n1y1n1y1n1y1n1y1n1y1n1y1n1y1n1y1n1y1n1y1n1y1n1y1n1y1n1y1n1y1n1y1n1y1n1y",
  "1n1y1n1y1n1y1n1y1n1y1n1y1n1y1n1y1n1y1n1y1n1y1n1y1n1y1n1y1n1y1n1y1n1y1n1y1n1y1n1y1n1y1n1y1n1y",
  "8n1y1n1y4n1y31053n1y1n1y1n1y1n1y1n1y1n1y1n1y1n1y1n1y1n1y1n1y1n1y1n1y1n1y1n1y1n1y1n1y1n1y1n1y",
  "1n1y1n1y1n1y1n1y19n1y1n1y1n1y1n1y1n1y1n1y1n1y1n1y1n1y1n1y1n1y1n1y1n1y1n1y135n1y1n1y1n1y1n1y",
  "1n1y1n1y1n1y3n1y1n1y1n1y1n1y1n1y1n1y1n1y1n1y1n1y1n1y1n1y1n1y1n1y1n1y1n1y1n1y1n1y1n1y1n1y1n1y",
  "1n1y1n1y1n1y1n1y1n1y1n1y1n1y1n1y1n1y1n1y1n1y10n1y1n1y1n2y1n1y1n1y1n1y1n1y4n1y1n1y2n1y1n1y3n",
  "1y1n1y1n1y1n1y1n1y1n1y1n1y1n1y1n1y1n1y1n5y1n5y1n1y1n1y1n1y1n1y1n1y1n1y1n1y1n4y1n1y1n2y1n1y1n",
  "1y1n1y1n1y1n1y1n1y1n1y1n1y24n1y22315n26y1221n40y136n36y156n11y1n15y1n7y1n2y1770n51y157n22y",
  "2874n32y21888n32y64n25y25927n26y26n26y26n26y26n1y1n2y2n1y2n2y2n4y1n8y26n26y26n2y1n4y2n8y1n7y",
  "27n2y1n4y1n5y1n1y3n7y27n26y26n26y26n26y26n26y26n26y26n26y30n25y33n25y33n25y33n25y33n25y33n1y",
  "4405n34y2062n26y6n26y6n26y986742n"]

/-- Whether a code point is in lower case, by the labels `y` and `n`. -/
def lowercaseRuns : Runs := Runs.ofLines [
  "97n26y47n1y10n1y4n1y36n24y1n8y1n1y1n1y1n1y1n1y1n1y1n1y1n1y1n1y1n1y1n1y1n1y1n1y1n1y1n1y1n1y1n",
  "1y1n1y1n1y1n1y1n1y1n1y1n1y1n1y1n1y1n1y1n1y1n1y1n2y1n1y1n1y1n1y1n1y1n1y1n1y1n1y1n2y1n1y1n1y1n",
  "1y1n1y1n1y1n1y1n1y1n1y1n1y1n1y1n1y1n1y1n1y1n1y1n1y1n1y1n1y1n1y1n1y1n1y1n1y1n1y1n1y2n1y1n1y1n",
  "3y2n1y1n1y2n1y3n2y4n1y2n1y3n3y2n1y2n1y1n1y1n1y2n1y1n2y1n1y2n1y3n1y1n1y2n2y2n3y6n1y2n1y2n1y1n",
  "1y1n1y1n1y1n1y1n1y1n1y1n1y1n2y1n1y1n1y1n1y1n1y1n1y1n1y1n1y1n1y1n2y2n1y1n1y3n1y1n1y1n1y1n1y1n",
  "1y1n1y1n1y1n1y1n1y1n1y1n1y1n1y1n1y1n1y1n1y1n1y1n1y1n1y1n1y1n1y1n1y1n1y1n1y1n1y1n1y1n1y1n1y1n",
  "1y1n1y1n7y2n1y2n2y1n1y4n1y1n1y1n1y1n1y1n69y2n35y7n2y30n5y96n1y43n1y1n1y3n1y2n4y18n1y27n35y1n",
  "2y3n3y1n1y1n1y1n1y1n1y1n1y1n1y1n1y1n1y1n1y1n1y1n1y1n5y1n1y2n1y2n2y51n48y1n1y1n1y1n1y1n1y1n1y",
  "1n1y1n1y1n1y1n1y1n1y1n1y1n1y1n1y1n1y1n1y1n1y1n1y9n1y1n1y1n1y1n1y1n1y1n1y1n1y1n1y1n1y1n1y1n1y",
  "1n1y1n1y1n1y1n1y1n1y1n1y1n1y1n1y1n1y1n1y1n1y1n1y1n1y1n1y1n1y1n1y2n1y1n1y1n1y1n1y1n1y1n1y1n2y",
  "1n1y1n1y1n1y1n1y1n1y1n1y1n1y1n1y1n1y1n1y1n1y1n1y1n1y1n1y1n1y1n1y1n1y1n1y1n1y1n1y1n1y1n1y1n1y",
  "1n1y1n1y1n1y1n1y1n1y1n1y1n1y1n1y1n1y1n1y1n1y1n1y1n1y1n1y1n1y1n1y1n1y1n1y1n1y1n1y1n1y1n1y1n1y",
  "1n1y1n1y48n41y2887n43y1n4y760n6y2178n9y1n1y117n192y65n1y1n1y1n1y1n1y1n1y1n1y1n1y1n1y1n1y1n1y",
  "1n1y1n1y1n1y1n1y1n1y1n1y1n1y1n1y1n1y1n1y1n1y1n1y1n1y1n1y1n1y1n1y1n1y1n1y1n1y1n1y1n1y1n1y1n1y",
  "1n1y1n1y1n1y1n1y1n1y1n1y1n1y1n1y1n1y1n1y1n1y1n1y1n1y1n1y1n1y1n1y1n1y1n1y1n1y1n1y1n1y1n1y1n1y",
  "1n1y1n1y1n1y1n1y1n1y1n1y1n1y1n1y1n1y1n1y1n1y1n1y1n1y1n1y1n1y1n1y1n1y1n1y1n9y1n1y1n1y1n1y1n1y",
  "1n1y1n1y1n1y1n1y1n1y1n1y1n1y1n1y1n1y1n1y1n1y1n1y1n1y1n1y1n1y1n1y1n1y1n1y1n1y1n1y1n1y1n1y1n1y",
  "1n1y1n1y1n1y1n1y1n1y1n1y1n1y1n1y1n1y1n1y1n1y1n1y1n1y1n1y1n1y1n1y1n1y1n1y1n1y1n1y1n1y1n9y8n6y",
  "10n8y8n8y8n6y10n8y8n8y8n14y2n8y8n8y8n8y8n5y1n2y6n1y3n3y1n2y8n4y2n2y8n8y10n3y1n2y121n1y13n1y",
  "16n13y109n1y3n2y3n1y27n1y4n1y4n1y2n2y8n4y4n1y33n16y4n1y843n26y1862n48y1n1y3n2y1n1y1n1y1n1y4n",
  "1y1n2y1n8y3n1y1n1y1n1y1n1y1n1y1n1y1n1y1n1y1n1y1n1y1n1y1n1y1n1y1n1y1n1y1n1y1n1y1n1y1n1y1n1y1n",
  "1y1n1y1n1y1n1y1n1y1n1y1n1y1n1y1n1y1n1y1n1y1n1y1n1y1n1y1n1y1n1y1n1y1n1y1n1y1n1y1n1y1n1y1n1y1n",
  "1y1n1y1n1y1n1y1n1y1n1y1n2y7n1y1n1y4n1y12n38y1n1y5n1y30995n1y1n1y1n1y1n1y1n1y1n1y1n1y1n1y1n1y",
  "1n1y1n1y1n1y1n1y1n1y1n1y1n1y1n1y1n1y1n1y1n1y1n1y1n1y1n1y19n1y1n1y1n1y1n1y1n1y1n1y1n1y1n1y1n",
  "1y1n1y1n1y1n1y1n1y1n3y133n1y1n1y1n1y1n1y1n1y1n1y1n3y1n1y1n1y1n1y1n1y1n1y1n1y1n1y1n1y1n1y1n1y",
  "1n1y1n1y1n1y1n1y1n1y1n1y1n1y1n1y1n1y1n1y1n1y1n1y1n1y1n1y1n1y1n1y1n1y1n1y1n1y1n1y1n10y1n1y1n",
  "1y2n1y1n1y1n1y1n1y1n1y4n1y1n1y2n1y1n3y1n1y1n1y1n1y1n1y1n1y1n1y1n1y1n1y1n1y1n1y5n1y5n1y1n1y1n",
  "1y1n1y1n1y1n1y1n1y1n1y4n1y1n1y2n1y1n1y1n1y1n1y1n1y1n1y1n1y1n1y21n4y1n1y1n3y821n43y1n14y6n80y",
  "20288n7y12n5y1065n26y1229n40y136n36y155n11y1n15y1n7y1n2y451n1y2n3y1n42y1n9y1285n51y125n22y",
  "2874n32y21888n32y59n25y25926n26y26n7y1n18y26n26y26n4y1n1y1n7y1n11y26n26y26n26y26n26y26n26y",
  "26n26y26n26y26n26y26n26y26n28y28n25y1n6y26n25y1n6y26n25y1n6y26n25y1n6y26n25y1n6y1n1y1844n10y",
  "1n20y6n6y261n62y2228n34y988860n"]

/-- Whether a character is alphabetic. -/
def isAlphabetic (c : Char) : Bool :=
  alphabeticRuns.label c == "y"

/-- Whether a character is in upper case. -/
def isUppercase (c : Char) : Bool :=
  uppercaseRuns.label c == "y"

/-- Whether a character is in lower case. -/
def isLowercase (c : Char) : Bool :=
  lowercaseRuns.label c == "y"

/-- Whether a character is a decimal digit of any script. -/
def isDigit (c : Char) : Bool :=
  category c == "Nd"

/-- Whether a character makes up words: alphabetic ones, marks, digits, connectors and the two that
join letters. -/
def isWord (c : Char) : Bool :=
  isAlphabetic c || ["Mn", "Mc", "Me", "Nd", "Pc"].contains (category c) ||
    c.toNat == 0x200C || c.toNat == 0x200D

end ConfigVetting.Unicode
